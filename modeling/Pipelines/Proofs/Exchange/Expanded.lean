import Pipelines.Proofs.Exchange.Room
import Pipelines.Proofs.Layers
import Pipelines.Proofs.Remaining

namespace Pipelines

/-!
# How deep an expansion is nested

A pipeline becomes a block of assignments, which takes more brackets than the
call that it was: a tree that has been loaded can expand into one that is too
deep to be loaded again. One pipeline adds at most five brackets, and pipelines
beside each other share them, so what counts is how many of them are nested
inside each other.
-/

variable {invocation : String} {supply rest : Supply}

namespace Expr

theorem nesting_le_nestingOf {e : Expr} {es : List Expr} (member : e ∈ es) :
    e.nesting ≤ nestingOf es :=
  nestingOf_le.mp (Nat.le_refl _) e member

mutual

theorem nestingOf_splice_le (e : Expr) : nestingOf e.splice ≤ e.nesting := by
  cases e with
  | block lines =>
      have inLines := nestingOf_flatten_le lines
      rw [splice, nesting]
      omega
  | _ => simp [splice, nestingOf]

theorem nestingOf_flatten_le (es : List Expr) : nestingOf (flatten es) ≤ nestingOf es := by
  cases es with
  | nil => exact Nat.le_refl _
  | cons e es =>
      have first := nestingOf_le.mp (nestingOf_splice_le e)
      have others := nestingOf_le.mp (nestingOf_flatten_le es)
      refine nestingOf_le.mpr fun step member => ?_
      rw [nestingOf]
      rcases List.mem_append.mp member with here | later
      · exact Nat.le_trans (first step here) (Nat.le_max_left ..)
      · exact Nat.le_trans (others step later) (Nat.le_max_right ..)

end

mutual

/-- A name takes the two brackets that a hole does not. -/
theorem nesting_fill_le (invocation c : String) (e : Expr) :
    (e.fill invocation (.name c)).nesting ≤ e.nesting + 2 := by
  cases e with
  | call callee args =>
      rw [fill]
      split
      · have inFirst := nestingOf_fillFirst_le invocation c args
        simp only [nesting]
        omega
      · have inCallee := nesting_fill_le invocation c callee
        have inArgs := nestingOf_fillAll_le invocation c args
        simp only [nesting]
        omega
  | assign target value =>
      have inTarget := nesting_fill_le invocation c target
      have inValue := nesting_fill_le invocation c value
      simp only [fill, nesting]
      omega
  | block lines =>
      have inLines := nestingOf_fillAll_le invocation c lines
      simp only [fill, nesting]
      omega
  | marked tag inner =>
      have inInner := nesting_fill_le invocation c inner
      simp only [fill, nesting]
      omega
  | _ => simp [fill, nesting]

theorem nestingOf_fillFirst_le (invocation c : String) (es : List Expr) :
    nestingOf (fillFirst invocation es (.name c)) ≤ nestingOf es + 2 := by
  cases es with
  | nil => exact Nat.zero_le _
  | cons e es =>
      have first := nesting_fill_le invocation c e
      simp only [fillFirst, nestingOf]
      omega

theorem nestingOf_fillAll_le (invocation c : String) (es : List Expr) :
    nestingOf (fillAll invocation es (.name c)) ≤ nestingOf es + 2 := by
  cases es with
  | nil => exact Nat.zero_le _
  | cons e es =>
      have first := nesting_fill_le invocation c e
      have others := nestingOf_fillAll_le invocation c es
      simp only [fillAll, nestingOf]
      omega

end

/-- What is called has no free hole, so it has the brackets of a name at least. -/
theorem nesting_withFirstArgument_le {e : Expr} (c : String)
    (closed : e.hasHole invocation = false) :
    (e.withFirstArgument (.name c)).nesting ≤ e.nesting + 3 := by
  cases e with
  | hole => cases closed
  | assign target value =>
      simp only [hasHole, Bool.or_eq_false_iff] at closed
      have inValue := nesting_withFirstArgument_le c closed.2
      simp only [withFirstArgument, nesting]
      omega
  | _ =>
      simp only [withFirstArgument, nesting, nestingOf]
      omega

theorem nesting_feed_le (invocation c : String) (e : Expr) :
    (e.feed invocation (.name c)).nesting ≤ e.nesting + 3 := by
  rw [feed]
  split
  case isTrue => exact Nat.le_succ_of_le (nesting_fill_le invocation c e)
  case isFalse closed => exact nesting_withFirstArgument_le c (Bool.eq_false_iff.mpr closed)

end Expr

theorem Step.nesting_value_le (invocation : String) (step : Step) (current : String) :
    (step.value invocation current).nesting ≤ step.body.nesting + 3 := by
  unfold Step.value Step.body
  split
  · simp only [Expr.nesting, Expr.nestingOf]
    omega
  · exact Expr.nesting_feed_le invocation current step.expr

theorem Statement.nesting_toExpr_le (statement : Statement) :
    statement.toExpr.nesting ≤ 2 + max 2 statement.value.nesting := by
  unfold Statement.toExpr
  split
  · simp only [Expr.nesting]
    omega
  · omega

theorem Step.nesting_body_le {index : Nat} {e : Expr} {step : Step}
    (read : Step.ofExpr index e = .ok step) : step.body.nesting ≤ e.nesting := by
  rcases Step.ofExpr_cases read with ⟨aside, _, rfl⟩ | ⟨_, _, rfl⟩ | ⟨_, y, _, rfl⟩
  · have body : step.body = step.expr := by simp [Step.body, aside, StepKind.isBroadcast]
    rw [body, Expr.nesting]
    exact Nat.le_add_left ..
  · exact Nat.le_refl _
  · rw [Expr.nesting]
    omega

/-- Handing a name to a step takes three brackets, and binding the value takes two. -/
theorem nesting_threadSteps_le {index : Nat} {es : List Expr} {steps : List Step}
    (read : Step.ofExprs index es = .ok steps) {current : String} {statement : Statement}
    (member : statement ∈ (threadSteps invocation steps current supply).1) :
    statement.toExpr.nesting ≤ Expr.nestingOf es + 5 := by
  obtain ⟨step, among, name, same⟩ := mem_threadSteps member
  obtain ⟨e, inEs, position, found⟩ := Step.mem_ofExprs read among
  have line := Statement.nesting_toExpr_le statement
  have value := Step.nesting_value_le invocation step name
  have body := Step.nesting_body_le found
  have bounded := Expr.nesting_le_nestingOf inEs
  rw [same] at line
  omega

theorem nesting_nameSeed_le {seed : Expr} {start : List Statement} {current : String}
    (named : nameSeed seed supply = .ok (start, current, rest)) :
    ∀ statement ∈ start, statement.toExpr.nesting ≤ seed.nesting + 5 := by
  rcases nameSeed_cases named with ⟨_, rfl, _⟩ | ⟨value, rfl, rfl, _⟩ | ⟨_, _, rfl, _⟩
  · exact nofun
  · simp only [List.forall_mem_singleton, Statement.toExpr, Binding.name?, Expr.nesting]
    omega
  · simp only [List.forall_mem_singleton, Statement.toExpr, Binding.name?, Expr.nesting]
    omega

/-- Threading a pipeline adds five brackets at most. -/
theorem nesting_threadArguments_le {args : List Expr} {pipeline : Pipeline} {threaded : Threaded}
    (accepted : threadArguments invocation args supply = .ok (pipeline, threaded, rest)) :
    threaded.toExpr.nesting ≤ (Expr.call (.name invocation) args).nesting + 5 := by
  obtain ⟨read, done⟩ := threadArguments_eq_ok.mp accepted
  obtain ⟨es, split, follow⟩ := Pipeline.ofArguments_eq_ok.mp read
  have flattened := Expr.nestingOf_flatten_le args
  rw [split, Expr.nestingOf] at flattened
  simp only [Expr.nesting]
  by_cases none : pipeline.steps = []
  · rw [none, thread_nil] at done
    cases done
    simp only [Threaded.toExpr]
    omega
  · obtain ⟨start, current, middle, named, statements, final, rfl⟩ := (thread_eq_ok none).mp done
    have inSeed := nesting_nameSeed_le named
    rw [toExpr_of_steps none done, Expr.nesting, statements, final]
    have lines : Expr.nestingOf ((start ++ (threadSteps invocation pipeline.steps current middle).1).map
        Statement.toExpr ++ [.name (threadSteps invocation pipeline.steps current middle).2.1]) ≤
        Expr.nestingOf args + 5 := by
      refine Expr.nestingOf_le.mpr fun line member => ?_
      simp only [List.map_append, List.mem_append, List.mem_map, List.mem_singleton] at member
      rcases member with (⟨statement, among, rfl⟩ | ⟨statement, among, rfl⟩) | rfl
      · have bound := inSeed statement among
        omega
      · have bound := nesting_threadSteps_le follow among
        omega
      · simp [Expr.nesting]
    omega

theorem InTurn.nestingOf_le {es es' : List Expr}
    (run : InTurn (fun e _ e' _ => e'.nesting ≤ e.nesting + 5 * e.fedDepth invocation)
      es supply es' rest) :
    Expr.nestingOf es' ≤ Expr.nestingOf es + 5 * Expr.fedDepthOf invocation es := by
  induction run with
  | nil => exact Nat.le_refl _
  | cons head _ ih =>
      simp only [Expr.nestingOf, Expr.fedDepthOf]
      omega

theorem Expands.nesting_le_fedDepth {e expanded : Expr}
    (run : Expands invocation e supply expanded rest) :
    expanded.nesting ≤ e.nesting + 5 * e.fedDepth invocation := by
  induction run using Expands.induction with
  | name | hole | raw => exact Nat.le_refl _
  | @call callee _ args _ _ _ _ plain _ _ first others =>
      obtain ⟨inCallee, inArgs⟩ := Expr.fedDepth_parts_le invocation callee args
      have args := (others.imp fun _ _ _ _ known => known.2).nestingOf_le
      simp only [Expr.nesting]
      omega
  | assign _ _ first second =>
      simp only [Expr.nesting, Expr.fedDepth]
      omega
  | block _ others =>
      have lines := (others.imp fun _ _ _ _ known => known.2).nestingOf_le
      simp only [Expr.nesting, Expr.fedDepth]
      omega
  | marked _ _ inside =>
      simp only [Expr.nesting, Expr.fedDepth]
      omega
  | @pipeline args _ threaded expanded _ _ _ accepted _ inside =>
      have opened : (Expr.name invocation).opens invocation = true := by simp [Expr.opens]
      rw [Expr.fedDepth, if_pos opened]
      -- One bare name is threaded into itself. Anything else pays for the five brackets with a layer.
      split
      case isTrue single =>
        unfold Expr.isSingleName at single
        split at single
        case h_2 => cases single
        rw [threadArguments_single rfl] at accepted
        cases accepted
        simp only [Threaded.toExpr, Expr.nesting, Expr.fedDepth, Expr.nestingOf] at inside ⊢
        omega
      case isFalse =>
        have deeper := nesting_threadArguments_le accepted
        have fewer := fedDepth_threadArguments_le accepted
        omega

theorem Expands.nesting_le {e expanded : Expr}
    (run : Expands invocation e supply expanded rest) :
    expanded.nesting ≤ e.nesting + 5 * e.pipelineDepth invocation := by
  have bound := run.nesting_le_fedDepth
  have fewer := Expr.fedDepth_le invocation e
  omega

/-- The expansion of `@chain(x, f)` is as much deeper as one pipeline allows. -/
example :
    (Config.expand {} (.call (.name "@chain") [.name "x", .name "f"])).outcome =
      .ok (.block [.assign (.name "__chain_1") (.call (.name "f") [.name "x"]),
        .name "__chain_1"]) ∧
    (Expr.block [.assign (.name "__chain_1") (.call (.name "f") [.name "x"]),
        .name "__chain_1"]).nesting =
      (Expr.call (.name "@chain") [.name "x", .name "f"]).nesting +
        5 * (Expr.call (.name "@chain") [.name "x", .name "f"]).pipelineDepth "@chain" :=
  ⟨by cbv, by decide⟩

namespace Exchange

/-- The expansion of a loaded tree can be exchanged again exactly as long as it is not nested too
deep, and its pipelines say how much deeper than the tree it is at most. -/
theorem load_writeTree_expanded (config : Config) {text : String} {e expanded : Expr}
    (loaded : load text = .ok e) (done : (config.expand e).outcome = .ok expanded) :
    (load (writeTree expanded) = .ok expanded ↔ expanded.nesting ≤ 127) ∧
      e.nesting ≤ 127 ∧
      expanded.nesting ≤ e.nesting + 5 * e.pipelineDepth config.invocation := by
  obtain ⟨rest, run⟩ := Config.outcome_expand.mp done
  exact ⟨load_eq_ok_iff_nesting_le, nesting_le_of_load loaded, run.nesting_le⟩

/-- `@chain(x, f(@chain(_, g)))` becomes `begin __chain_1 = f(begin __chain_2 = g(x); __chain_2 end);
__chain_1 end`. -/
theorem load_writeTree_expanded_of_nested_pipeline :
    load "\x7b\"Call\":[\x7b\"Ident\":[\"@chain\"]\x7d,[\x7b\"Ident\":[\"x\"]\x7d,\x7b\"Call\":[\x7b\"Ident\":[\"f\"]\x7d,[\x7b\"Call\":[\x7b\"Ident\":[\"@chain\"]\x7d,[\"Placeholder\",\x7b\"Ident\":[\"g\"]\x7d]]\x7d]]\x7d]]\x7d" =
      .ok (.call (.name "@chain") [.name "x",
        .call (.name "f") [.call (.name "@chain") [.hole, .name "g"]]]) ∧
    (Config.expand {} (.call (.name "@chain") [.name "x",
        .call (.name "f") [.call (.name "@chain") [.hole, .name "g"]]])).outcome =
      .ok (.block [.assign (.name "__chain_1") (.call (.name "f") [.block [
        .assign (.name "__chain_2") (.call (.name "g") [.name "x"]), .name "__chain_2"]]),
        .name "__chain_1"]) ∧
    load (writeTree (.block [.assign (.name "__chain_1") (.call (.name "f") [.block [
        .assign (.name "__chain_2") (.call (.name "g") [.name "x"]), .name "__chain_2"]]),
        .name "__chain_1"])) =
      .ok (.block [.assign (.name "__chain_1") (.call (.name "f") [.block [
        .assign (.name "__chain_2") (.call (.name "g") [.name "x"]), .name "__chain_2"]]),
        .name "__chain_1"]) := by
  have loaded : load "\x7b\"Call\":[\x7b\"Ident\":[\"@chain\"]\x7d,[\x7b\"Ident\":[\"x\"]\x7d,\x7b\"Call\":[\x7b\"Ident\":[\"f\"]\x7d,[\x7b\"Call\":[\x7b\"Ident\":[\"@chain\"]\x7d,[\"Placeholder\",\x7b\"Ident\":[\"g\"]\x7d]]\x7d]]\x7d]]\x7d" =
      .ok (.call (.name "@chain") [.name "x",
        .call (.name "f") [.call (.name "@chain") [.hole, .name "g"]]]) :=
    eq_ok_of_toOption (by decide +kernel)
  have done : (Config.expand {} (.call (.name "@chain") [.name "x",
        .call (.name "f") [.call (.name "@chain") [.hole, .name "g"]]])).outcome =
      .ok (.block [.assign (.name "__chain_1") (.call (.name "f") [.block [
        .assign (.name "__chain_2") (.call (.name "g") [.name "x"]), .name "__chain_2"]]),
        .name "__chain_1"]) := by cbv
  exact ⟨loaded, done, (load_writeTree_expanded {} loaded done).1.mpr (by decide)⟩

/-- `@chain(x, f(@aside … @aside y))` with 59 directives is nested 126 deep. It becomes
`begin __chain_1 = f(x, @aside … @aside y); __chain_1 end`, which is nested 128 deep. -/
theorem not_load_writeTree_expanded :
    load (writeTree (.call (.name "@chain") [.name "x",
        .call (.name "f") [Nat.repeat (Expr.marked .aside) 59 (.name "y")]])) =
      .ok (.call (.name "@chain") [.name "x",
        .call (.name "f") [Nat.repeat (Expr.marked .aside) 59 (.name "y")]]) ∧
    (Config.expand {} (.call (.name "@chain") [.name "x",
        .call (.name "f") [Nat.repeat (Expr.marked .aside) 59 (.name "y")]])).outcome =
      .ok (.block [.assign (.name "__chain_1") (.call (.name "f") [.name "x",
        Nat.repeat (Expr.marked .aside) 59 (.name "y")]), .name "__chain_1"]) ∧
    load (writeTree (.block [.assign (.name "__chain_1") (.call (.name "f") [.name "x",
        Nat.repeat (Expr.marked .aside) 59 (.name "y")]), .name "__chain_1"])) ≠
      .ok (.block [.assign (.name "__chain_1") (.call (.name "f") [.name "x",
        Nat.repeat (Expr.marked .aside) 59 (.name "y")]), .name "__chain_1"]) := by
  refine ⟨load_eq_ok_iff_nesting_le.mpr (by decide), by cbv, fun loads => ?_⟩
  exact absurd (load_eq_ok_iff_nesting_le.mp loads) (by decide)

end Exchange

end Pipelines
