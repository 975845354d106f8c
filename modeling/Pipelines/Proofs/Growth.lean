import Pipelines.Proofs.Openings
import Pipelines.Proofs.Remaining

namespace Pipelines

/-!
# How large an expansion gets

Nothing but a name is ever copied into a tree, and a name takes the node of the
hole that it fills. So an expansion grows with its statements alone: beyond the
step itself, a statement takes the assignment, its name, the call and the name
that is handed on. The block and the name at its end take the nodes that are left
of the call. Every statement comes from a flattened argument of a pipeline, so a
tree has more nodes than its expansion has statements.
-/

variable {invocation : String} {supply rest : Supply}

namespace Expr

/-- How many statements name a seed: none if it is a bare name. -/
def seedStatements : Expr → Nat
  | .name _ => 0
  | _ => 1

/-- How many statements a pipeline becomes at most, for its flattened arguments. -/
def ownStatements : List Expr → Nat
  | [] => 0
  | seed :: steps => seed.seedStatements + steps.length

mutual

/-- A bound on the statements in the expansion of a tree that nothing is handed to any more, except
for what is inside its pipelines. -/
def statementBound (invocation : String) : Expr → Nat
  | .call callee args =>
      if callee.opens invocation then openingsOf invocation args + ownStatements (flatten args)
      else callee.statementBound invocation + statementBoundOf invocation args
  | .assign target value => target.statementBound invocation + value.statementBound invocation
  | .block lines => statementBoundOf invocation lines
  | .marked _ inner => inner.statementBound invocation
  | .name _ | .hole | .raw _ => 0

def statementBoundOf (invocation : String) : List Expr → Nat
  | [] => 0
  | e :: es => e.statementBound invocation + statementBoundOf invocation es

end

theorem ownStatements_le_length (es : List Expr) : ownStatements es ≤ es.length := by
  cases es with
  | nil => exact Nat.le_refl 0
  | cons seed steps =>
      cases seed <;> simp only [ownStatements, seedStatements, List.length_cons] <;> omega

theorem statementBoundOf_eq_sum (es : List Expr) :
    statementBoundOf invocation es = (es.map (statementBound invocation)).sum := by
  induction es with
  | nil => rfl
  | cons e es ih => simp [statementBoundOf, ih]

theorem totalSize_eq_sum (es : List Expr) : totalSize es = (es.map size).sum := by
  induction es with
  | nil => rfl
  | cons e es ih => simp [totalSize, ih]

theorem statementBoundOf_append (es fs : List Expr) :
    statementBoundOf invocation (es ++ fs) =
      statementBoundOf invocation es + statementBoundOf invocation fs := by
  simp [statementBoundOf_eq_sum]

mutual

theorem statementBound_le_openings (invocation : String) (e : Expr) :
    e.statementBound invocation ≤ e.openings invocation := by
  cases e with
  | call callee args =>
      have inCallee := statementBound_le_openings invocation callee
      have inArgs := statementBoundOf_le_openingsOf invocation args
      have own := ownStatements_le_length (flatten args)
      rw [statementBound, openings]
      split <;> omega
  | assign target value =>
      have inTarget := statementBound_le_openings invocation target
      have inValue := statementBound_le_openings invocation value
      rw [statementBound, openings]
      omega
  | block lines => exact statementBoundOf_le_openingsOf invocation lines
  | marked tag inner => exact statementBound_le_openings invocation inner
  | _ => exact Nat.le_refl _

theorem statementBoundOf_le_openingsOf (invocation : String) (es : List Expr) :
    statementBoundOf invocation es ≤ openingsOf invocation es := by
  cases es with
  | nil => exact Nat.le_refl _
  | cons e es =>
      have first := statementBound_le_openings invocation e
      have others := statementBoundOf_le_openingsOf invocation es
      rw [statementBoundOf, openingsOf]
      omega

end

theorem statementBound_call_name_le (invocation c : String) (e : Expr) :
    (Expr.call e [.name c]).statementBound invocation ≤ e.openings invocation := by
  have own := statementBound_le_openings invocation e
  rw [statementBound]
  split
  · exact Nat.zero_le _
  · exact own

/-- A name in front takes the place of the seed, which becomes a step. -/
theorem statementBound_withFirstArgument_le (invocation c : String) (e : Expr) :
    (e.withFirstArgument (.name c)).statementBound invocation ≤ e.openings invocation := by
  cases e with
  | assign target value =>
      have inTarget := statementBound_le_openings invocation target
      have inValue := statementBound_withFirstArgument_le invocation c value
      simp only [withFirstArgument, statementBound, openings]
      omega
  | call callee args =>
      have inCallee := statementBound_le_openings invocation callee
      have inArgs := statementBoundOf_le_openingsOf invocation args
      simp only [withFirstArgument, statementBound, statementBoundOf, openings, openingsOf, flatten,
        splice, List.singleton_append, ownStatements, seedStatements]
      split <;> omega
  | _ => exact statementBound_call_name_le invocation c _

theorem statementBound_feed_le (invocation c : String) (e : Expr) :
    (e.feed invocation (.name c)).statementBound invocation ≤ e.openings invocation := by
  rw [feed]
  split
  · exact Nat.le_trans (statementBound_le_openings invocation _) (openings_fill_le invocation c e)
  · exact statementBound_withFirstArgument_le invocation c e

end Expr

theorem Step.statementBound_value_le {index : Nat} {e : Expr} {step : Step}
    (read : Step.ofExpr index e = .ok step) (invocation current : String) :
    (step.value invocation current).statementBound invocation ≤ e.openings invocation := by
  rw [← Step.openings_ofExpr read, Step.value]
  split
  · exact Expr.statementBound_call_name_le invocation current (.marked .broadcast step.expr)
  · exact Expr.statementBound_feed_le invocation current step.expr

theorem Statement.statementBound_toExpr (statement : Statement) :
    statement.toExpr.statementBound invocation = statement.value.statementBound invocation := by
  unfold Statement.toExpr
  split
  · simp [Expr.statementBound]
  · rfl

theorem Statement.size_toExpr_le (statement : Statement) :
    statement.toExpr.size ≤ statement.value.size + 2 := by
  unfold Statement.toExpr
  split
  · simp only [Expr.size]
    omega
  · exact Nat.le_add_right _ 2

theorem statementBoundOf_threadSteps_le (invocation : String) {index : Nat} {es : List Expr}
    {steps : List Step} (read : Step.ofExprs index es = .ok steps) (current : String)
    (supply : Supply) :
    Expr.statementBoundOf invocation
        ((threadSteps invocation steps current supply).1.map Statement.toExpr) ≤
      Expr.openingsOf invocation es := by
  have each {index : Nat} {e : Expr} {step : Step} (found : Step.ofExpr index e = .ok step)
      (current : String) (supply : Supply) :
      (step.thread invocation current supply).1.toExpr.statementBound invocation ≤
        e.openings invocation + 0 := by
    rw [Statement.statementBound_toExpr, Step.value_thread]
    exact Step.statementBound_value_le found invocation current
  rw [Expr.statementBoundOf_eq_sum, Expr.openingsOf_eq_sum]
  simpa only [Nat.zero_mul, Nat.add_zero] using sum_threadSteps_le each read current supply

theorem totalSize_threadSteps_le (invocation : String) {index : Nat} {es : List Expr}
    {steps : List Step} (read : Step.ofExprs index es = .ok steps) (current : String)
    (supply : Supply) :
    Expr.totalSize ((threadSteps invocation steps current supply).1.map Statement.toExpr) ≤
      Expr.totalSize es + 4 * es.length := by
  rw [Expr.totalSize_eq_sum, Expr.totalSize_eq_sum]
  refine sum_threadSteps_le (fun {index e step} found current supply => ?_) read current supply
  have value := Step.size_thread_le found invocation current supply
  have line := (step.thread invocation current supply).1.size_toExpr_le
  omega

theorem statementBoundOf_nameSeed_le (invocation : String) {seed : Expr} {start : List Statement}
    {current : String} (named : nameSeed seed supply = .ok (start, current, rest)) :
    Expr.statementBoundOf invocation (start.map Statement.toExpr) ≤ seed.openings invocation := by
  have inSeed := Expr.statementBound_le_openings invocation seed
  rcases nameSeed_cases named with ⟨_, rfl, _⟩ | ⟨value, rfl, rfl, _⟩ | ⟨_, _, rfl, _⟩
  · exact Nat.zero_le _
  · simpa [Expr.statementBoundOf, Statement.statementBound_toExpr, Expr.statementBound] using inSeed
  · simpa [Expr.statementBoundOf, Statement.statementBound_toExpr] using inSeed

theorem totalSize_nameSeed_le {seed : Expr} {start : List Statement} {current : String}
    (named : nameSeed seed supply = .ok (start, current, rest)) :
    Expr.totalSize (start.map Statement.toExpr) ≤ seed.size + 2 * seed.seedStatements := by
  rcases nameSeed_cases named with ⟨_, rfl, _⟩ | ⟨value, rfl, rfl, _⟩ | ⟨_, unnamed, rfl, _⟩
  · exact Nat.zero_le _
  · simp [Statement.toExpr, Binding.name?, Expr.totalSize]
  · have line := Statement.size_toExpr_le ⟨.temp current, seed⟩
    have bound : seed.seedStatements = 1 := by
      cases seed with
      | name x => cases unnamed
      | _ => rfl
    rw [bound]
    exact line

/-- Threading uses up the statements that it makes. -/
theorem statementBound_threadArguments_le {args : List Expr} {pipeline : Pipeline}
    {threaded : Threaded}
    (accepted : threadArguments invocation args supply = .ok (pipeline, threaded, rest)) :
    threaded.toExpr.statementBound invocation ≤ Expr.openingsOf invocation args := by
  obtain ⟨read, done⟩ := threadArguments_eq_ok.mp accepted
  obtain ⟨es, split, follow⟩ := Pipeline.ofArguments_eq_ok.mp read
  rw [← Expr.openingsOf_flatten, split, Expr.openingsOf]
  by_cases none : pipeline.steps = []
  · rw [none, thread_nil] at done
    cases done
    exact Nat.le_add_right_of_le (Expr.statementBound_le_openings invocation pipeline.seed)
  · obtain ⟨start, current, middle, named, statements, final, rfl⟩ := (thread_eq_ok none).mp done
    have inSeed := statementBoundOf_nameSeed_le invocation named
    have inSteps := statementBoundOf_threadSteps_le invocation follow current middle
    rw [toExpr_of_steps none done, Expr.statementBound, statements, final]
    simp only [List.map_append, Expr.statementBoundOf_append, Expr.statementBoundOf,
      Expr.statementBound]
    omega

/-- Every statement of a pipeline takes at most four nodes more than what it is made of. -/
theorem size_toExpr_threadArguments_le {args : List Expr} {pipeline : Pipeline}
    {threaded : Threaded}
    (accepted : threadArguments invocation args supply = .ok (pipeline, threaded, rest)) :
    threaded.toExpr.size ≤
      (Expr.call (.name invocation) args).size + 4 * Expr.ownStatements (Expr.flatten args) := by
  obtain ⟨read, done⟩ := threadArguments_eq_ok.mp accepted
  obtain ⟨es, split, follow⟩ := Pipeline.ofArguments_eq_ok.mp read
  have flattened := Expr.totalSize_flatten_le args
  rw [split, Expr.totalSize] at flattened
  rw [split, Expr.size, Expr.size, Expr.ownStatements]
  by_cases none : pipeline.steps = []
  · rw [none, thread_nil] at done
    cases done
    simp only [Threaded.toExpr]
    omega
  · obtain ⟨start, current, middle, named, statements, final, rfl⟩ := (thread_eq_ok none).mp done
    have inSeed := totalSize_nameSeed_le named
    have inSteps := totalSize_threadSteps_le invocation follow current middle
    rw [toExpr_of_steps none done, Expr.size, statements, final]
    simp only [List.map_append, Expr.totalSize_append, Expr.totalSize, Expr.size]
    omega

/-- The nodes of a tree and those that its expansion may add. -/
def Expr.sizeBound (invocation : String) (e : Expr) : Nat :=
  e.size + 4 * e.statementBound invocation

theorem Expr.sizeBound_threadArguments_le {args : List Expr} {pipeline : Pipeline}
    {threaded : Threaded}
    (accepted : threadArguments invocation args supply = .ok (pipeline, threaded, rest)) :
    threaded.toExpr.sizeBound invocation ≤
      (Expr.call (.name invocation) args).sizeBound invocation := by
  have opened : (Expr.name invocation).opens invocation = true := by simp [opens]
  have nodes := size_toExpr_threadArguments_le accepted
  have statements := statementBound_threadArguments_le accepted
  simp only [sizeBound, statementBound, if_pos opened] at *
  omega

theorem InTurn.totalSize_le {es es' : List Expr}
    (run : InTurn (fun e _ e' _ => e'.size ≤ e.sizeBound invocation) es supply es' rest) :
    Expr.totalSize es' ≤ Expr.totalSize es + 4 * Expr.statementBoundOf invocation es := by
  induction run with
  | nil => exact Nat.le_refl _
  | cons head _ ih =>
      simp only [Expr.sizeBound] at head
      simp only [Expr.totalSize, Expr.statementBoundOf]
      omega

theorem Expands.size_le {e expanded : Expr} (run : Expands invocation e supply expanded rest) :
    expanded.size ≤ e.sizeBound invocation := by
  induction run using Expands.induction with
  | name | hole | raw => exact Nat.le_add_right ..
  | @call callee _ args _ _ _ _ plain _ _ first others =>
      have inArgs := (others.imp fun _ _ _ _ known => known.2).totalSize_le
      have inOpened := Expr.statementBoundOf_le_openingsOf invocation args
      simp only [Expr.sizeBound, Expr.size, Expr.statementBound] at first ⊢
      split
      case isTrue opened =>
        have bare := Expr.statementBound_le_openings invocation callee
        rw [Expr.openings_of_opens opened] at bare
        omega
      case isFalse => omega
  | assign _ _ first second =>
      simp only [Expr.sizeBound, Expr.size, Expr.statementBound] at *
      omega
  | block _ others =>
      have inLines := (others.imp fun _ _ _ _ known => known.2).totalSize_le
      simp only [Expr.sizeBound, Expr.size, Expr.statementBound]
      omega
  | marked _ _ inside =>
      simp only [Expr.sizeBound, Expr.size, Expr.statementBound] at *
      omega
  | pipeline accepted _ inside =>
      exact Nat.le_trans inside (Expr.sizeBound_threadArguments_le accepted)

namespace Config

/-- Expansion adds at most four nodes for each flattened argument of a pipeline, so the expanded tree
has at most five times the nodes of the tree. -/
theorem size_expand_le {config : Config} {e expanded : Expr}
    (done : (config.expand e).outcome = .ok expanded) :
    expanded.size ≤ e.size + 4 * e.openings config.invocation ∧ expanded.size ≤ 5 * e.size := by
  obtain ⟨rest, run⟩ := outcome_expand.mp done
  have bounded := run.size_le
  have statements := Expr.statementBound_le_openings config.invocation e
  have fewer := Expr.openings_lt_size config.invocation e
  rw [Expr.sizeBound] at bounded
  constructor <;> omega

/-- In `@chain(load(), g(_, _), @chain(h, k))` each hole of `g` takes a name, and the inner pipeline,
which gets a name for its seed, becomes a block in the outer one. -/
theorem size_expand_le_of_nested_pipeline :
    (expand {} (.call (.name "@chain") [.call (.name "load") [], .call (.name "g") [.hole, .hole],
      .call (.name "@chain") [.name "h", .name "k"]])).outcome =
      .ok (.block [.assign (.name "__chain_1") (.call (.name "load") []),
        .assign (.name "__chain_2") (.call (.name "g") [.name "__chain_1", .name "__chain_1"]),
        .assign (.name "__chain_3") (.block [
          .assign (.name "__chain_4") (.call (.name "h") [.name "__chain_2"]),
          .assign (.name "__chain_5") (.call (.name "k") [.name "__chain_4"]),
          .name "__chain_5"]),
        .name "__chain_3"]) ∧
    (Expr.block [.assign (.name "__chain_1") (.call (.name "load") []),
        .assign (.name "__chain_2") (.call (.name "g") [.name "__chain_1", .name "__chain_1"]),
        .assign (.name "__chain_3") (.block [
          .assign (.name "__chain_4") (.call (.name "h") [.name "__chain_2"]),
          .assign (.name "__chain_5") (.call (.name "k") [.name "__chain_4"]),
          .name "__chain_5"]),
        .name "__chain_3"]).size ≤
      5 * (Expr.call (.name "@chain") [.call (.name "load") [],
        .call (.name "g") [.hole, .hole],
        .call (.name "@chain") [.name "h", .name "k"]]).size := by
  have done : (expand {} (.call (.name "@chain") [.call (.name "load") [],
      .call (.name "g") [.hole, .hole],
      .call (.name "@chain") [.name "h", .name "k"]])).outcome =
      .ok (.block [.assign (.name "__chain_1") (.call (.name "load") []),
        .assign (.name "__chain_2") (.call (.name "g") [.name "__chain_1", .name "__chain_1"]),
        .assign (.name "__chain_3") (.block [
          .assign (.name "__chain_4") (.call (.name "h") [.name "__chain_2"]),
          .assign (.name "__chain_5") (.call (.name "k") [.name "__chain_4"]),
          .name "__chain_5"]),
        .name "__chain_3"]) := by cbv
  exact ⟨done, (size_expand_le done).2⟩

end Config

end Pipelines
