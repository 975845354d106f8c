import Pipelines.Proofs.Fresh
import Pipelines.Proofs.Remaining

namespace Pipelines

variable {invocation : String} {supply rest : Supply}

namespace Expr

mutual

/-- The payloads of the raw leaves of a tree, in reading order. -/
def payloads : Expr → List String
  | .raw payload => [payload]
  | .call callee args => callee.payloads ++ payloadsOf args
  | .assign target value => target.payloads ++ value.payloads
  | .block lines => payloadsOf lines
  | .marked _ inner => inner.payloads
  | .name _ | .hole => []

def payloadsOf : List Expr → List String
  | [] => []
  | e :: es => e.payloads ++ payloadsOf es

end

theorem payloadsOf_eq_flatMap (es : List Expr) : payloadsOf es = es.flatMap payloads := by
  induction es with
  | nil => rfl
  | cons e es ih => simp [payloadsOf, ih]

theorem payloadsOf_append (es fs : List Expr) :
    payloadsOf (es ++ fs) = payloadsOf es ++ payloadsOf fs := by
  simp only [payloadsOf_eq_flatMap, List.flatMap_append]

theorem payloadsOf_flatten (es : List Expr) : payloadsOf (flatten es) = payloadsOf es := by
  rw [payloadsOf_eq_flatMap, payloadsOf_eq_flatMap]
  exact flatMap_flatten payloadsOf_eq_flatMap es

mutual

theorem payloads_fill (invocation x : String) (e : Expr) :
    (e.fill invocation (.name x)).payloads = e.payloads := by
  cases e with
  | call callee args =>
      rw [fill]
      split
      · simp only [payloads, payloadsOf_fillFirst invocation x args]
      · simp only [payloads, payloads_fill invocation x callee, payloadsOf_fillAll invocation x args]
  | assign target value =>
      simp only [fill, payloads, payloads_fill invocation x target, payloads_fill invocation x value]
  | block lines => exact payloadsOf_fillAll invocation x lines
  | marked tag inner => exact payloads_fill invocation x inner
  | _ => rfl

theorem payloadsOf_fillFirst (invocation x : String) (es : List Expr) :
    payloadsOf (fillFirst invocation es (.name x)) = payloadsOf es := by
  cases es with
  | nil => rfl
  | cons e es => simp only [fillFirst, payloadsOf, payloads_fill invocation x e]

theorem payloadsOf_fillAll (invocation x : String) (es : List Expr) :
    payloadsOf (fillAll invocation es (.name x)) = payloadsOf es := by
  cases es with
  | nil => rfl
  | cons e es =>
      simp only [fillAll, payloadsOf, payloads_fill invocation x e, payloadsOf_fillAll invocation x es]

end

/-- The name goes behind the callee and in front of the arguments, so the raw leaves of both stay in
their order. -/
theorem payloads_withFirstArgument (e : Expr) (x : String) :
    (e.withFirstArgument (.name x)).payloads = e.payloads := by
  cases e with
  | assign target value =>
      simp only [withFirstArgument, payloads, payloads_withFirstArgument value x]
  | _ => simp [withFirstArgument, payloads, payloadsOf]

theorem payloads_feed (invocation x : String) (e : Expr) :
    (e.feed invocation (.name x)).payloads = e.payloads := by
  rw [feed]
  split
  · exact payloads_fill invocation x e
  · exact payloads_withFirstArgument e x

end Expr

theorem Step.payloads_ofExpr {index : Nat} {e : Expr} {step : Step}
    (read : Step.ofExpr index e = .ok step) : step.expr.payloads = e.payloads := by
  have body : step.body.payloads = step.expr.payloads := by
    unfold Step.body
    split <;> rfl
  rcases Step.ofExpr_cases read with ⟨_, _, rfl⟩ | ⟨_, _, rfl⟩ | ⟨_, y, _, rfl⟩
  · rfl
  · exact body.symm
  · exact body.symm

theorem Step.payloads_value (invocation : String) (step : Step) (current : String) :
    (step.value invocation current).payloads = step.expr.payloads := by
  unfold Step.value
  split
  · simp [Expr.payloads, Expr.payloadsOf]
  · exact Expr.payloads_feed invocation current step.expr

theorem Statement.payloads_toExpr (statement : Statement) :
    statement.toExpr.payloads = statement.value.payloads := by
  unfold Statement.toExpr
  split <;> rfl

theorem payloadsOf_threadSteps (invocation : String) {index : Nat} {es : List Expr}
    {steps : List Step} (read : Step.ofExprs index es = .ok steps) (current : String)
    (supply : Supply) :
    Expr.payloadsOf ((threadSteps invocation steps current supply).1.map Statement.toExpr) =
      Expr.payloadsOf es := by
  induction es generalizing index steps current supply with
  | nil =>
      cases read
      rfl
  | cons e es ih =>
      obtain ⟨step, others, first, follow, rfl⟩ := Step.ofExprs_cons_eq_ok.mp read
      rcases threaded : step.thread invocation current supply with ⟨statement, name, after⟩
      obtain ⟨value, _, _⟩ := Step.thread_cases threaded
      have head : statement.toExpr.payloads = e.payloads := by
        rw [Statement.payloads_toExpr, value, Step.payloads_value, Step.payloads_ofExpr first]
      simp only [threadSteps, threaded, List.map_cons, Expr.payloadsOf, head, ih follow name after]

theorem payloadsOf_nameSeed {seed : Expr} {start : List Statement} {current : String}
    (named : nameSeed seed supply = .ok (start, current, rest)) :
    Expr.payloadsOf (start.map Statement.toExpr) = seed.payloads := by
  rcases nameSeed_cases named with ⟨rfl, rfl, _⟩ | ⟨value, rfl, rfl, _⟩ | ⟨_, _, rfl, _⟩
  · rfl
  · simp [Expr.payloadsOf, Statement.payloads_toExpr, Expr.payloads]
  · simp [Expr.payloadsOf, Statement.payloads_toExpr]

/-- A pipeline is threaded into an expression with the raw leaves of its arguments. -/
theorem payloads_threadArguments {args : List Expr} {pipeline : Pipeline} {threaded : Threaded}
    (accepted : threadArguments invocation args supply = .ok (pipeline, threaded, rest)) :
    threaded.toExpr.payloads = Expr.payloadsOf args := by
  obtain ⟨read, done⟩ := threadArguments_eq_ok.mp accepted
  obtain ⟨es, split, follow⟩ := Pipeline.ofArguments_eq_ok.mp read
  rw [← Expr.payloadsOf_flatten, split, Expr.payloadsOf]
  by_cases none : pipeline.steps = []
  · rw [none] at done follow
    rw [Step.ofExprs_eq_nil follow, Expr.payloadsOf, List.append_nil]
    cases done
    rfl
  · obtain ⟨start, current, middle, named, statements, final, rfl⟩ := (thread_eq_ok none).mp done
    rw [toExpr_of_steps none done, Expr.payloads, statements, final, List.map_append,
      Expr.payloadsOf_append, Expr.payloadsOf_append, payloadsOf_nameSeed named,
      payloadsOf_threadSteps invocation follow]
    simp [Expr.payloadsOf, Expr.payloads]

theorem InTurn.payloads {R : Expr → Supply → Expr → Supply → Prop} {es es' : List Expr}
    (run : InTurn R es supply es' rest)
    (kept : ∀ e before e' after, R e before e' after → e'.payloads = e.payloads) :
    Expr.payloadsOf es' = Expr.payloadsOf es := by
  induction run with
  | nil => rfl
  | cons head _ ih => rw [Expr.payloadsOf, Expr.payloadsOf, kept _ _ _ _ head, ih]

theorem Expands.payloads {e expanded : Expr} (run : Expands invocation e supply expanded rest) :
    expanded.payloads = e.payloads := by
  induction run using Expands.induction with
  | name | hole | raw => rfl
  | call _ _ _ first others =>
      rw [Expr.payloads, Expr.payloads, first, others.payloads fun _ _ _ _ kept => kept.2]
  | assign _ _ first second => rw [Expr.payloads, Expr.payloads, first, second]
  | block _ others =>
      rw [Expr.payloads, Expr.payloads, others.payloads fun _ _ _ _ kept => kept.2]
  | marked _ _ inside => exact inside
  | pipeline accepted _ inside =>
      rw [inside, payloads_threadArguments accepted, Expr.payloads, Expr.payloads, List.nil_append]

namespace Config

/-- Expansion keeps the raw leaves of a tree in their order, and so does threading the arguments of
one pipeline. -/
theorem passes_keep_payloads (config : Config) :
    (∀ e expanded, (config.expand e).outcome = .ok expanded → expanded.payloads = e.payloads) ∧
    (∀ args result, (config.transformInvocation args).outcome = .ok result →
      result.payloads = args.flatMap Expr.payloads) := by
  constructor
  · intro e expanded done
    obtain ⟨rest, run⟩ := outcome_expand.mp done
    exact run.payloads
  · intro args result done
    obtain ⟨threaded, accepted, built⟩ := Traced.outcome_bind_eq_ok.mp done
    obtain ⟨pipeline, rest, accepted⟩ := outcome_threadInvocation.mp accepted
    cases built
    rw [payloads_threadArguments accepted, Expr.payloadsOf_eq_flatMap]

/-- In `@chain(0, f(1, @chain(_, g(2, _))), @aside h(3), y = 4)` the raw leaves keep their order,
although `4` becomes a callee and the inner pipeline a block. -/
theorem passes_keep_payloads_of_nested_pipeline :
    (expand {} (.call (.name "@chain") [.raw "0", .call (.name "f") [.raw "1",
        .call (.name "@chain") [.hole, .call (.name "g") [.raw "2", .hole]]],
        .marked .aside (.call (.name "h") [.raw "3"]), .assign (.name "y") (.raw "4")])).outcome =
      .ok (.block [.assign (.name "__chain_1") (.raw "0"),
        .assign (.name "__chain_2") (.call (.name "f") [.raw "1",
          .block [.assign (.name "__chain_3") (.call (.name "g") [.raw "2", .name "__chain_1"]),
            .name "__chain_3"]]),
        .call (.name "h") [.name "__chain_2", .raw "3"],
        .assign (.name "y") (.call (.raw "4") [.name "__chain_2"]), .name "y"]) ∧
    (Expr.block [.assign (.name "__chain_1") (.raw "0"),
      .assign (.name "__chain_2") (.call (.name "f") [.raw "1",
        .block [.assign (.name "__chain_3") (.call (.name "g") [.raw "2", .name "__chain_1"]),
          .name "__chain_3"]]),
      .call (.name "h") [.name "__chain_2", .raw "3"],
      .assign (.name "y") (.call (.raw "4") [.name "__chain_2"]), .name "y"]).payloads =
        ["0", "1", "2", "3", "4"] ∧
    (transformInvocation {} [.raw "0", .block [.raw "1", .marked .broadcast (.name "f")]]).outcome =
      .ok (.block [.assign (.name "__chain_1") (.raw "0"),
        .assign (.name "__chain_2") (.call (.raw "1") [.name "__chain_1"]),
        .assign (.name "__chain_3") (.call (.marked .broadcast (.name "f")) [.name "__chain_2"]),
        .name "__chain_3"]) ∧
    (Expr.block [.assign (.name "__chain_1") (.raw "0"),
      .assign (.name "__chain_2") (.call (.raw "1") [.name "__chain_1"]),
      .assign (.name "__chain_3") (.call (.marked .broadcast (.name "f")) [.name "__chain_2"]),
      .name "__chain_3"]).payloads = ["0", "1"] := by
  refine ⟨?expanded, ?inTree, ?transformed, ?inBlock⟩
  case expanded => cbv
  case transformed => cbv
  case inTree =>
    exact (passes_keep_payloads {}).1 (.call (.name "@chain") [.raw "0", .call (.name "f") [.raw "1",
      .call (.name "@chain") [.hole, .call (.name "g") [.raw "2", .hole]]],
      .marked .aside (.call (.name "h") [.raw "3"]), .assign (.name "y") (.raw "4")]) _ (by cbv)
  case inBlock =>
    exact (passes_keep_payloads {}).2
      [.raw "0", .block [.raw "1", .marked .broadcast (.name "f")]] _ (by cbv)

end Config

end Pipelines
