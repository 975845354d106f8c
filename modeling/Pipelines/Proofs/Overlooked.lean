import Pipelines.Proofs.Boundary
import Pipelines.Proofs.Remaining

namespace Pipelines

/-!
# Holes that remain

Whether a pipeline has a free hole is decided by its first argument, and its
seed by its flattened arguments. Behind an empty block in front, the holes of a
seed are overlooked: nothing outside fills them, and as they belong to the seed,
nothing inside does. They are the only holes that expansion can leave in a tree
without free holes.
-/

variable {invocation : String} {supply middle rest : Supply}

/-- A hole that no pipeline inside the tree fills: it stands outside all steps. -/
inductive Loose (invocation : String) : Expr → Prop where
  | hole : Loose invocation .hole
  | callee (plain : callee.name? ≠ some invocation) (args : List Expr)
      (inside : Loose invocation callee) : Loose invocation (.call callee args)
  | arg (plain : callee.name? ≠ some invocation) (member : e ∈ args)
      (inside : Loose invocation e) : Loose invocation (.call callee args)
  | target (value : Expr) (inside : Loose invocation target) :
      Loose invocation (.assign target value)
  | value (target : Expr) (inside : Loose invocation value) :
      Loose invocation (.assign target value)
  | line (member : e ∈ lines) (inside : Loose invocation e) : Loose invocation (.block lines)
  | inner {inner : Expr} (tag : Tag) (inside : Loose invocation inner) :
      Loose invocation (.marked tag inner)
  | seed (split : Expr.flatten args = seed :: steps) (inside : Loose invocation seed) :
      Loose invocation (.call (.name invocation) args)

/-- The arguments of a pipeline whose first is an empty block and whose seed has a hole that
nothing fills. -/
def Overlooked (invocation : String) (args : List Expr) : Prop :=
  ∃ first others seed steps, args = first :: others ∧ first.splice = [] ∧
    Expr.flatten others = seed :: steps ∧ Loose invocation seed

theorem Overlooked.loose {args : List Expr} (overlooked : Overlooked invocation args) :
    Loose invocation (.call (.name invocation) args) := by
  obtain ⟨first, others, seed, steps, rfl, empty, split, inside⟩ := overlooked
  exact .seed (by rw [Expr.flatten, empty, List.nil_append, split]) inside

/-- The seed of a pipeline is the first that is expanded of what the pipeline is threaded into,
unless it is a bare name. -/
theorem seed_expands {args steps : List Expr} {seed expanded : Expr} {pipeline : Pipeline}
    {threaded : Threaded} (split : Expr.flatten args = seed :: steps) (unnamed : seed.name? = none)
    (accepted : threadArguments invocation args supply = .ok (pipeline, threaded, middle))
    (run : Expands invocation threaded.toExpr middle expanded rest) :
    ∃ seed' later, Expands invocation seed middle seed' later ∧
      seed'.nodes ⊆ expanded.nodes ∧
      ∀ node, Visits invocation seed middle node →
        Visits invocation threaded.toExpr middle node := by
  obtain ⟨read, done⟩ := threadArguments_eq_ok.mp accepted
  obtain ⟨others, flattened, _⟩ := Pipeline.ofArguments_eq_ok.mp read
  rw [split] at flattened
  obtain ⟨rfl, rfl⟩ := List.cons.inj flattened
  by_cases none : pipeline.steps = []
  · rw [none, thread_nil] at done
    cases done
    exact ⟨expanded, rest, run, fun _ member => member, fun _ visited => visited⟩
  obtain ⟨start, current, _, named, statements, _, _⟩ := (thread_eq_ok none).mp done
  have first : ∃ statement, start = [statement] ∧ (statement.toExpr = pipeline.seed ∨
      statement.toExpr = .assign (.name current) pipeline.seed) := by
    rcases nameSeed_cases named with ⟨same, _⟩ | ⟨value, same, rfl, _⟩ | ⟨_, _, rfl, _⟩
    · rw [same] at unnamed
      cases unnamed
    · exact ⟨_, rfl, .inl same.symm⟩
    · exact ⟨_, rfl, .inr rfl⟩
  obtain ⟨statement, rfl, shape⟩ := first
  obtain ⟨_, final⟩ := threaded
  cases statements
  obtain ⟨lines', inside, rfl⟩ := Expands.block_iff.mp run
  obtain ⟨line, later, others', head, _, rfl⟩ := InTurn.cons_iff.mp inside
  rcases shape with same | same
  · rw [same] at head
    refine ⟨line, later, head, fun x member => by simp [Expr.nodes, Expr.nodesOf, member], ?_⟩
    intro node visited
    exact .line (.nil middle) (same ▸ visited) _
  · rw [same] at head
    obtain ⟨target, _, seed', name, value, rfl⟩ := Expands.assign_iff.mp head
    cases name
    refine ⟨seed', later, value, fun x member => by simp [Expr.nodes, Expr.nodesOf, member], ?_⟩
    intro node visited
    exact .line (.nil middle) (same ▸ .value (.name current middle) visited) _

theorem Loose.unnamed {e : Expr} (loose : Loose invocation e) : e.name? = none := by
  cases loose <;> rfl

/-- A hole that nothing inside fills is left by the expansion. -/
theorem Loose.hole_mem_nodes {e expanded : Expr} (loose : Loose invocation e)
    (run : Expands invocation e supply expanded rest) : .hole ∈ expanded.nodes := by
  induction loose generalizing supply expanded rest with
  | hole => cases run; exact Expr.mem_nodes_self .hole
  | callee plain args _ ih =>
      obtain ⟨callee', _, args', head, _, rfl⟩ := (Expands.call_iff plain).mp run
      simp [Expr.nodes, ih head]
  | arg plain member _ ih =>
      obtain ⟨callee', _, args', _, tail, rfl⟩ := (Expands.call_iff plain).mp run
      obtain ⟨_, _, _, e', _, _, _, _, here, among⟩ := tail.at_mem member
      have inside := Expr.mem_nodesOf.mpr ⟨e', among, ih here⟩
      simp [Expr.nodes, inside]
  | target value _ ih =>
      obtain ⟨target', _, value', head, _, rfl⟩ := Expands.assign_iff.mp run
      simp [Expr.nodes, ih head]
  | value target _ ih =>
      obtain ⟨target', _, value', _, tail, rfl⟩ := Expands.assign_iff.mp run
      simp [Expr.nodes, ih tail]
  | line member _ ih =>
      obtain ⟨lines', tail, rfl⟩ := Expands.block_iff.mp run
      obtain ⟨_, _, _, e', _, _, _, _, here, among⟩ := tail.at_mem member
      have inside := Expr.mem_nodesOf.mpr ⟨e', among, ih here⟩
      simp [Expr.nodes, inside]
  | inner tag _ ih =>
      obtain ⟨inner', expanded, rfl⟩ := Expands.marked_iff.mp run
      simp [Expr.nodes, ih expanded]
  | seed split inside ih =>
      obtain ⟨_, _, _, accepted, result⟩ := Expands.pipeline_iff.mp run
      obtain ⟨seed', _, here, within, _⟩ := seed_expands split inside.unnamed accepted result
      exact within (ih here)

/-- An expansion that comes to a pipeline whose seed is overlooked. -/
def MeetsOverlooked (invocation : String) (e : Expr) (supply : Supply) : Prop :=
  ∃ args, Visits invocation e supply (.call (.name invocation) args) ∧ Overlooked invocation args

theorem MeetsOverlooked.imp {e e' : Expr} {supply supply' : Supply}
    (meets : MeetsOverlooked invocation e supply)
    (visits : ∀ node, Visits invocation e supply node → Visits invocation e' supply' node) :
    MeetsOverlooked invocation e' supply' := by
  obtain ⟨args, visited, overlooked⟩ := meets
  exact ⟨args, visits _ visited, overlooked⟩

/-- A hole that nothing inside fills is free, or else it is overlooked. -/
theorem Loose.meetsOverlooked {e expanded : Expr} (loose : Loose invocation e)
    (closed : e.hasHole invocation = false) (run : Expands invocation e supply expanded rest) :
    MeetsOverlooked invocation e supply := by
  induction loose generalizing supply expanded rest with
  | hole => cases closed
  | callee plain args _ ih =>
      simp only [Expr.hasHole, plain, if_false, Bool.or_eq_false_iff] at closed
      obtain ⟨_, _, _, head, _, _⟩ := (Expands.call_iff plain).mp run
      exact (ih closed.1 head).imp fun _ visited => .callee plain args visited
  | arg plain member _ ih =>
      simp only [Expr.hasHole, plain, if_false, Bool.or_eq_false_iff, Expr.anyHasHole_eq_any,
        List.any_eq_false, Bool.not_eq_true] at closed
      obtain ⟨_, _, _, head, tail, _⟩ := (Expands.call_iff plain).mp run
      obtain ⟨_, _, after, _, _, _, rfl, earlier, here, _⟩ := tail.at_mem member
      exact (ih (closed.2 _ member) here).imp fun _ visited =>
        .arg plain head earlier visited after
  | target value _ ih =>
      simp only [Expr.hasHole, Bool.or_eq_false_iff] at closed
      obtain ⟨_, _, _, head, _, _⟩ := Expands.assign_iff.mp run
      exact (ih closed.1 head).imp fun _ visited => .target value visited
  | value target _ ih =>
      simp only [Expr.hasHole, Bool.or_eq_false_iff] at closed
      obtain ⟨_, _, _, head, tail, _⟩ := Expands.assign_iff.mp run
      exact (ih closed.2 tail).imp fun _ visited => .value head visited
  | line member _ ih =>
      simp only [Expr.hasHole, Expr.anyHasHole_eq_any, List.any_eq_false,
        Bool.not_eq_true] at closed
      obtain ⟨_, tail, _⟩ := Expands.block_iff.mp run
      obtain ⟨_, _, after, _, _, _, rfl, earlier, here, _⟩ := tail.at_mem member
      exact (ih (closed _ member) here).imp fun _ visited => .line earlier visited after
  | inner tag _ ih =>
      simp only [Expr.hasHole] at closed
      obtain ⟨_, expanded, _⟩ := Expands.marked_iff.mp run
      exact (ih closed expanded).imp fun _ visited => .inner tag visited
  | @seed args seed steps split inside ih =>
      cases args with
      | nil => cases split
      | cons first others =>
          rw [Expr.hasHole_pipeline, Expr.firstHasHole, Expr.hasHole_eq_any_splice] at closed
          cases spliced : first.splice with
          | nil =>
              rw [Expr.flatten, spliced, List.nil_append] at split
              exact ⟨_, .self _ _, first, others, seed, steps, rfl, spliced, split, inside⟩
          | cons front behind =>
              have same : front = seed := by
                rw [Expr.flatten, spliced] at split
                exact (List.cons.inj split).1
              rw [spliced, List.any_cons, Bool.or_eq_false_iff, same] at closed
              obtain ⟨_, _, _, accepted, result⟩ := Expands.pipeline_iff.mp run
              obtain ⟨_, _, here, _, visits⟩ := seed_expands split inside.unnamed accepted result
              exact (ih closed.1 here).imp fun _ visited => .threaded accepted (visits _ visited)

theorem Expr.hasHole_withFirstArgument {e : Expr} (x : String)
    (closed : e.hasHole invocation = false) :
    (e.withFirstArgument (.name x)).hasHole invocation = false := by
  cases e with
  | assign target value =>
      simp only [hasHole, Bool.or_eq_false_iff] at closed
      simp only [withFirstArgument, hasHole, closed.1, hasHole_withFirstArgument x closed.2,
        Bool.or_false]
  | call callee args =>
      by_cases pipeline : callee.name? = some invocation
      · simp [withFirstArgument, hasHole, firstHasHole, pipeline]
      · simp only [hasHole, pipeline, if_false, Bool.or_eq_false_iff] at closed
        simp [withFirstArgument, hasHole, anyHasHole, pipeline, closed.1, closed.2]
  | _ => simp_all [withFirstArgument, hasHole, firstHasHole, anyHasHole]

theorem Expr.hasHole_feed (e : Expr) (x : String) :
    (e.feed invocation (.name x)).hasHole invocation = false := by
  by_cases holes : e.hasHole invocation = true
  · rw [feed, if_pos holes, hasHole_fill, hasHole_name, Bool.and_false]
  · rw [feed, if_neg holes]
    exact hasHole_withFirstArgument x (Bool.eq_false_iff.mpr holes)

/-- A step that has received a value has no free hole left. -/
theorem Step.hasHole_value {index : Nat} {e : Expr} {step : Step} (x : String)
    (read : Step.ofExpr index e = .ok step) :
    (step.value invocation x).hasHole invocation = false := by
  unfold Step.value
  by_cases broadcast : step.kind.isBroadcast = true
  · obtain ⟨f, named⟩ := Step.name_of_broadcast read broadcast
    simp [broadcast, named, Expr.hasHole, Expr.anyHasHole, Expr.name?]
  · rw [if_neg broadcast]
    exact Expr.hasHole_feed step.expr x

theorem Statement.hasHole_toExpr {statement : Statement}
    (closed : statement.value.hasHole invocation = false) :
    statement.toExpr.hasHole invocation = false := by
  unfold Statement.toExpr
  split
  · simp [Expr.hasHole, closed]
  · exact closed

/-- What is loose in a threaded pipeline is loose in its seed, or overlooked in one of its steps. -/
theorem Loose.of_toExpr {args : List Expr} {pipeline : Pipeline} {threaded : Threaded}
    {expanded : Expr}
    (accepted : threadArguments invocation args supply = .ok (pipeline, threaded, middle))
    (run : Expands invocation threaded.toExpr middle expanded rest)
    (loose : Loose invocation threaded.toExpr) :
    Loose invocation (.call (.name invocation) args) ∨
      MeetsOverlooked invocation threaded.toExpr middle := by
  obtain ⟨read, done⟩ := threadArguments_eq_ok.mp accepted
  obtain ⟨others, split, follow⟩ := Pipeline.ofArguments_eq_ok.mp read
  by_cases none : pipeline.steps = []
  · rw [none, thread_nil] at done
    cases done
    exact .inl (.seed split loose)
  obtain ⟨start, current, after, named, statements, final, _⟩ := (thread_eq_ok none).mp done
  have built := toExpr_of_steps none done
  rw [built] at loose
  cases loose with
  | line member inside =>
      simp only [statements, List.map_append, List.mem_append, final, List.mem_singleton] at member
      rcases member with (seeded | stepped) | rfl
      · left
        rcases nameSeed_cases named with ⟨_, rfl, _⟩ | ⟨value, same, rfl, _⟩ | ⟨_, _, rfl, _⟩
        · cases seeded
        · cases List.mem_singleton.mp seeded
          exact .seed split (same ▸ inside)
        · cases List.mem_singleton.mp seeded
          cases inside with
          | target _ name => cases name
          | value _ inside => exact .seed split inside
      · right
        obtain ⟨statement, among, rfl⟩ := List.mem_map.mp stepped
        obtain ⟨step, here, x, value⟩ := mem_threadSteps among
        obtain ⟨e, _, _, reads⟩ := Step.mem_ofExprs follow here
        have closed : statement.value.hasHole invocation = false :=
          value ▸ Step.hasHole_value x reads
        have line : statement.toExpr ∈ threaded.statements.map Statement.toExpr ++
            [threaded.final] := by
          simp only [statements, List.map_append, List.mem_append]
          exact .inl (.inr stepped)
        rw [built] at run ⊢
        obtain ⟨_, inTurn, _⟩ := Expands.block_iff.mp run
        obtain ⟨before, _, behind, _, _, _, lines, earlier, expands, _⟩ := inTurn.at_mem line
        rw [lines]
        exact (inside.meetsOverlooked (Statement.hasHole_toExpr closed) expands).imp
          fun _ visited => .line earlier visited behind
      · cases inside

theorem Expands.loose_or_meetsOverlooked {e expanded : Expr}
    (run : Expands invocation e supply expanded rest) (left : .hole ∈ expanded.nodes) :
    Loose invocation e ∨ MeetsOverlooked invocation e supply := by
  induction run using Expands.induction with
  | name | raw => cases List.mem_singleton.mp left
  | hole => exact .inl .hole
  | call plain head _ first others =>
      simp only [Expr.nodes, List.mem_cons, reduceCtorEq, List.mem_append, false_or] at left
      rcases left with inCallee | inArgs
      · exact (first inCallee).imp (.callee plain _) (·.imp fun _ visited => .callee plain _ visited)
      · obtain ⟨e', among, within⟩ := Expr.mem_nodesOf.mp inArgs
        obtain ⟨_, _, after, _, _, _, rfl, earlier, _, inside⟩ := others.at_result among
        exact (inside within).imp (.arg plain (by simp)) (·.imp fun _ visited =>
          .arg plain head earlier.forget visited after)
  | assign head _ first second =>
      simp only [Expr.nodes, List.mem_cons, reduceCtorEq, List.mem_append, false_or] at left
      rcases left with inTarget | inValue
      · exact (first inTarget).imp (.target _) (·.imp fun _ visited => .target _ visited)
      · exact (second inValue).imp (.value _) (·.imp fun _ visited => .value head visited)
  | block _ others =>
      simp only [Expr.nodes, List.mem_cons, reduceCtorEq, false_or] at left
      obtain ⟨e', among, within⟩ := Expr.mem_nodesOf.mp left
      obtain ⟨_, _, after, _, _, _, rfl, earlier, _, inside⟩ := others.at_result among
      exact (inside within).imp (.line (by simp)) (·.imp fun _ visited =>
        .line earlier.forget visited after)
  | marked tag _ ih =>
      simp only [Expr.nodes, List.mem_cons, reduceCtorEq, false_or] at left
      exact (ih left).imp (.inner tag) (·.imp fun _ visited => .inner tag visited)
  | pipeline accepted inside ih =>
      rcases ih left with loose | meets
      · exact (loose.of_toExpr accepted inside).imp_right
          (·.imp fun _ visited => .threaded accepted visited)
      · exact .inr (meets.imp fun _ visited => .threaded accepted visited)

namespace Config

/-- The expansion of a tree without free holes leaves one behind exactly when it comes to a
pipeline whose seed is overlooked. -/
theorem expand_fills_holes_iff {config : Config} {e expanded : Expr}
    (closed : e.hasHole config.invocation = false)
    (done : (config.expand e).outcome = .ok expanded) :
    .hole ∉ expanded.nodes ↔
      ∀ args, Visits config.invocation e (.ofRoots config.stem [e])
        (.call (.name config.invocation) args) → ¬ Overlooked config.invocation args := by
  obtain ⟨rest, run⟩ := outcome_expand.mp done
  constructor
  · intro filled args visited overlooked
    obtain ⟨_, _, _, result, within⟩ := visited.expands run
    exact filled (within (overlooked.loose.hole_mem_nodes result))
  · intro none left
    rcases run.loose_or_meetsOverlooked left with loose | ⟨args, visited, overlooked⟩
    · obtain ⟨args, visited, overlooked⟩ := loose.meetsOverlooked closed run
      exact none args visited overlooked
    · exact none args visited overlooked

/-- In `@chain(y, g(@chain(begin begin end; _ end, h(_, _))))` the inner seed is the outer hole, and
both pipelines fill their own. -/
theorem expand_fills_holes_of_nested_pipeline :
    (expand {} (.call (.name "@chain") [.name "y", .call (.name "g") [.call (.name "@chain")
      [.block [.block [], .hole], .call (.name "h") [.hole, .hole]]]])).outcome =
      .ok (.block [.assign (.name "__chain_1") (.call (.name "g") [.block
        [.assign (.name "__chain_2") (.call (.name "h") [.name "y", .name "y"]),
          .name "__chain_2"]]), .name "__chain_1"]) ∧
    ∀ args, Visits "@chain" (.call (.name "@chain") [.name "y", .call (.name "g")
        [.call (.name "@chain") [.block [.block [], .hole], .call (.name "h") [.hole, .hole]]]])
        ⟨"__chain_", 0, ["@chain", "y", "g", "@chain", "h"]⟩ (.call (.name "@chain") args) →
      ¬ Overlooked "@chain" args := by
  have done : (expand {} (.call (.name "@chain") [.name "y", .call (.name "g")
      [.call (.name "@chain")
        [.block [.block [], .hole], .call (.name "h") [.hole, .hole]]]])).outcome =
      .ok (.block [.assign (.name "__chain_1") (.call (.name "g") [.block
        [.assign (.name "__chain_2") (.call (.name "h") [.name "y", .name "y"]),
          .name "__chain_2"]]), .name "__chain_1"]) := by cbv
  exact ⟨done, (expand_fills_holes_iff (by decide) done).mp (by decide)⟩

/-- The hole of `@chain(y, g(@chain(begin end, f(_))))` stands behind an empty block. Neither
pipeline fills it, although the tree has no free hole. -/
theorem expand_leaves_hole_behind_empty_block :
    (Expr.call (.name "@chain") [.name "y", .call (.name "g") [.call (.name "@chain")
      [.block [], .call (.name "f") [.hole]]]]).hasHole "@chain" = false ∧
    (expand {} (.call (.name "@chain") [.name "y", .call (.name "g") [.call (.name "@chain")
      [.block [], .call (.name "f") [.hole]]]])).outcome =
      .ok (.block [.assign (.name "__chain_1")
        (.call (.name "g") [.name "y", .call (.name "f") [.hole]]), .name "__chain_1"]) ∧
    .hole ∈ (Expr.block [.assign (.name "__chain_1")
      (.call (.name "g") [.name "y", .call (.name "f") [.hole]]), .name "__chain_1"]).nodes := by
  exact ⟨by decide, by cbv, by decide⟩

end Config

end Pipelines
