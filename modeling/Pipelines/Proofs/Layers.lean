import Pipelines.Proofs.Openings

namespace Pipelines

/-!
# Pipelines inside each other

How many pipelines are nested inside each other in a tree. What threading makes
of a pipeline has one less, but for the pipelines that nobody wrote: a step that
is the bare name of pipelines becomes a pipeline of one name. Nothing is handed
to it any more, so it ends as that name and counts for nothing.
-/

variable {invocation : String} {supply rest : Supply}

namespace Expr

mutual

/-- How many pipelines are nested inside each other. A call of a hole may become one. -/
def pipelineDepth (invocation : String) : Expr → Nat
  | .call callee args =>
      if callee.opens invocation then 1 + pipelineDepthOf invocation args
      else max (callee.pipelineDepth invocation) (pipelineDepthOf invocation args)
  | .assign target value => max (target.pipelineDepth invocation) (value.pipelineDepth invocation)
  | .block lines => pipelineDepthOf invocation lines
  | .marked _ inner => inner.pipelineDepth invocation
  | .name _ | .hole | .raw _ => 0

def pipelineDepthOf (invocation : String) : List Expr → Nat
  | [] => 0
  | e :: es => max (e.pipelineDepth invocation) (pipelineDepthOf invocation es)

end

def isSingleName : List Expr → Bool
  | [.name _] => true
  | _ => false

mutual

/-- The same of a tree that nothing is handed to any more, except for what is inside its pipelines: a
pipeline of one bare name counts for nothing. -/
def fedDepth (invocation : String) : Expr → Nat
  | .call callee args =>
      if callee.opens invocation then
        if isSingleName args then 0 else 1 + pipelineDepthOf invocation args
      else max (callee.fedDepth invocation) (fedDepthOf invocation args)
  | .assign target value => max (target.fedDepth invocation) (value.fedDepth invocation)
  | .block lines => fedDepthOf invocation lines
  | .marked _ inner => inner.fedDepth invocation
  | .name _ | .hole | .raw _ => 0

def fedDepthOf (invocation : String) : List Expr → Nat
  | [] => 0
  | e :: es => max (e.fedDepth invocation) (fedDepthOf invocation es)

end

theorem pipelineDepthOf_le {es : List Expr} {depth : Nat} :
    pipelineDepthOf invocation es ≤ depth ↔ ∀ e ∈ es, e.pipelineDepth invocation ≤ depth := by
  induction es with
  | nil => simp [pipelineDepthOf]
  | cons e es ih => rw [pipelineDepthOf, Nat.max_le, ih, List.forall_mem_cons]

theorem fedDepthOf_le {es : List Expr} {depth : Nat} :
    fedDepthOf invocation es ≤ depth ↔ ∀ e ∈ es, e.fedDepth invocation ≤ depth := by
  induction es with
  | nil => simp [fedDepthOf]
  | cons e es ih => rw [fedDepthOf, Nat.max_le, ih, List.forall_mem_cons]

mutual

theorem fedDepth_le (invocation : String) (e : Expr) :
    e.fedDepth invocation ≤ e.pipelineDepth invocation := by
  cases e with
  | call callee args =>
      have inCallee := fedDepth_le invocation callee
      have inArgs := fedDepthOf_le_pipelineDepthOf invocation args
      rw [fedDepth, pipelineDepth]
      split
      · split <;> omega
      · omega
  | assign target value =>
      have inTarget := fedDepth_le invocation target
      have inValue := fedDepth_le invocation value
      rw [fedDepth, pipelineDepth]
      omega
  | block lines => exact fedDepthOf_le_pipelineDepthOf invocation lines
  | marked tag inner => exact fedDepth_le invocation inner
  | _ => exact Nat.le_refl _

theorem fedDepthOf_le_pipelineDepthOf (invocation : String) (es : List Expr) :
    fedDepthOf invocation es ≤ pipelineDepthOf invocation es := by
  cases es with
  | nil => exact Nat.le_refl _
  | cons e es =>
      have first := fedDepth_le invocation e
      have others := fedDepthOf_le_pipelineDepthOf invocation es
      rw [fedDepthOf, pipelineDepthOf]
      omega

end

theorem pipelineDepthOf_append (es fs : List Expr) :
    pipelineDepthOf invocation (es ++ fs) =
      max (pipelineDepthOf invocation es) (pipelineDepthOf invocation fs) := by
  induction es with
  | nil => simp [pipelineDepthOf]
  | cons e es ih => rw [List.cons_append, pipelineDepthOf, pipelineDepthOf, ih, Nat.max_assoc]

mutual

theorem pipelineDepthOf_splice (invocation : String) (e : Expr) :
    pipelineDepthOf invocation e.splice = e.pipelineDepth invocation := by
  cases e with
  | block lines => rw [splice, pipelineDepth, pipelineDepthOf_flatten invocation lines]
  | _ => simp [splice, pipelineDepthOf]

theorem pipelineDepthOf_flatten (invocation : String) (es : List Expr) :
    pipelineDepthOf invocation (flatten es) = pipelineDepthOf invocation es := by
  cases es with
  | nil => rfl
  | cons e es =>
      rw [flatten, pipelineDepthOf_append, pipelineDepthOf_splice invocation e,
        pipelineDepthOf_flatten invocation es, pipelineDepthOf]

end

theorem pipelineDepth_of_opens {callee : Expr} (opened : callee.opens invocation = true) :
    callee.pipelineDepth invocation = 0 := by
  cases callee with
  | name | hole => rfl
  | _ => cases opened

theorem fedDepth_parts_le (invocation : String) (callee : Expr) (args : List Expr) :
    callee.fedDepth invocation ≤ (Expr.call callee args).fedDepth invocation ∧
      fedDepthOf invocation args ≤ (Expr.call callee args).fedDepth invocation := by
  have inCallee := fedDepth_le invocation callee
  have inArgs := fedDepthOf_le_pipelineDepthOf invocation args
  rw [fedDepth]
  split
  case isTrue opened =>
    rw [pipelineDepth_of_opens opened] at inCallee
    split
    case isTrue single =>
      unfold isSingleName at single
      split at single
      · exact ⟨inCallee, Nat.le_refl _⟩
      · cases single
    case isFalse => omega
  case isFalse => omega

mutual

theorem pipelineDepth_fill_le (invocation c : String) (e : Expr) :
    (e.fill invocation (.name c)).pipelineDepth invocation ≤ e.pipelineDepth invocation := by
  cases e with
  | call callee args =>
      have inCallee := pipelineDepth_fill_le invocation c callee
      have inArgs := pipelineDepthOf_fillAll_le invocation c args
      by_cases pipeline : callee.name? = some invocation
      · have inFirst := pipelineDepthOf_fillFirst_le invocation c args
        have opened : callee.opens invocation = true := by simp [opens, pipeline]
        rw [fill, if_pos pipeline, pipelineDepth, pipelineDepth, if_pos opened, if_pos opened]
        omega
      · rw [fill, if_neg pipeline, pipelineDepth, pipelineDepth]
        cases opened : callee.opens invocation with
        -- A hole in the place of the callee turns into the name of pipelines or into another one.
        | true =>
            have bare := pipelineDepth_of_opens opened
            simp only [if_true]
            split <;> omega
        | false =>
            rw [opens_fill c opened]
            simp only [Bool.false_eq_true, if_false]
            omega
  | assign target value =>
      have inTarget := pipelineDepth_fill_le invocation c target
      have inValue := pipelineDepth_fill_le invocation c value
      simp only [fill, pipelineDepth]
      omega
  | block lines => exact pipelineDepthOf_fillAll_le invocation c lines
  | marked tag inner => exact pipelineDepth_fill_le invocation c inner
  | _ => exact Nat.zero_le _

theorem pipelineDepthOf_fillFirst_le (invocation c : String) (es : List Expr) :
    pipelineDepthOf invocation (fillFirst invocation es (.name c)) ≤
      pipelineDepthOf invocation es := by
  cases es with
  | nil => exact Nat.le_refl _
  | cons e es =>
      have first := pipelineDepth_fill_le invocation c e
      simp only [fillFirst, pipelineDepthOf]
      omega

theorem pipelineDepthOf_fillAll_le (invocation c : String) (es : List Expr) :
    pipelineDepthOf invocation (fillAll invocation es (.name c)) ≤
      pipelineDepthOf invocation es := by
  cases es with
  | nil => exact Nat.le_refl _
  | cons e es =>
      have first := pipelineDepth_fill_le invocation c e
      have others := pipelineDepthOf_fillAll_le invocation c es
      simp only [fillAll, pipelineDepthOf]
      omega

end

theorem fedDepth_call_name_le (invocation c : String) (e : Expr) :
    (Expr.call e [.name c]).fedDepth invocation ≤ e.pipelineDepth invocation := by
  have own := fedDepth_le invocation e
  rw [fedDepth]
  split
  · exact Nat.zero_le _
  · simp only [fedDepthOf, fedDepth]
    omega

theorem fedDepth_withFirstArgument_le (invocation c : String) (e : Expr) :
    (e.withFirstArgument (.name c)).fedDepth invocation ≤ e.pipelineDepth invocation := by
  cases e with
  | assign target value =>
      have inTarget := fedDepth_le invocation target
      have inValue := fedDepth_withFirstArgument_le invocation c value
      simp only [withFirstArgument, fedDepth, pipelineDepth]
      omega
  | call callee args =>
      have inCallee := fedDepth_le invocation callee
      have inArgs := fedDepthOf_le_pipelineDepthOf invocation args
      simp only [withFirstArgument, fedDepth, fedDepthOf, pipelineDepth, pipelineDepthOf]
      split
      · split <;> omega
      · omega
  | _ => exact fedDepth_call_name_le invocation c _

theorem fedDepth_feed_le (invocation c : String) (e : Expr) :
    (e.feed invocation (.name c)).fedDepth invocation ≤ e.pipelineDepth invocation := by
  rw [feed]
  split
  · exact Nat.le_trans (fedDepth_le invocation _) (pipelineDepth_fill_le invocation c e)
  · exact fedDepth_withFirstArgument_le invocation c e

end Expr

theorem Step.pipelineDepth_ofExpr {index : Nat} {e : Expr} {step : Step}
    (read : Step.ofExpr index e = .ok step) :
    step.expr.pipelineDepth invocation = e.pipelineDepth invocation := by
  have body : step.body.pipelineDepth invocation = step.expr.pipelineDepth invocation := by
    unfold Step.body
    split <;> rfl
  rcases Step.ofExpr_cases read with ⟨_, _, rfl⟩ | ⟨_, _, rfl⟩ | ⟨_, y, _, rfl⟩
  · rfl
  · exact body.symm
  · simp [Expr.pipelineDepth, body]

theorem Step.fedDepth_value_le {index : Nat} {e : Expr} {step : Step}
    (read : Step.ofExpr index e = .ok step) (invocation current : String) :
    (step.value invocation current).fedDepth invocation ≤ e.pipelineDepth invocation := by
  rw [← Step.pipelineDepth_ofExpr read, Step.value]
  split
  · exact Expr.fedDepth_call_name_le invocation current (.marked .broadcast step.expr)
  · exact Expr.fedDepth_feed_le invocation current step.expr

theorem Statement.fedDepth_toExpr (statement : Statement) :
    statement.toExpr.fedDepth invocation = statement.value.fedDepth invocation := by
  unfold Statement.toExpr
  split
  · simp [Expr.fedDepth]
  · rfl

theorem fedDepth_threadSteps_le {index : Nat} {es : List Expr} {steps : List Step}
    (read : Step.ofExprs index es = .ok steps) {current : String} {statement : Statement}
    (member : statement ∈ (threadSteps invocation steps current supply).1) :
    statement.toExpr.fedDepth invocation ≤ Expr.pipelineDepthOf invocation es := by
  obtain ⟨step, among, name, same⟩ := mem_threadSteps member
  obtain ⟨e, inEs, position, found⟩ := Step.mem_ofExprs read among
  rw [Statement.fedDepth_toExpr, same]
  exact Nat.le_trans (Step.fedDepth_value_le found invocation name)
    (Expr.pipelineDepthOf_le.mp (Nat.le_refl _) e inEs)

theorem fedDepth_nameSeed_le {seed : Expr} {start : List Statement} {current : String}
    (named : nameSeed seed supply = .ok (start, current, rest)) :
    ∀ statement ∈ start, statement.toExpr.fedDepth invocation ≤ seed.pipelineDepth invocation := by
  have inSeed := Expr.fedDepth_le invocation seed
  rcases nameSeed_cases named with ⟨_, rfl, _⟩ | ⟨value, rfl, rfl, _⟩ | ⟨_, _, rfl, _⟩
  · exact nofun
  · rw [List.forall_mem_singleton, Statement.fedDepth_toExpr]
    rw [Expr.fedDepth] at inSeed
    exact Nat.le_trans (Nat.le_max_right ..) inSeed
  · rw [List.forall_mem_singleton, Statement.fedDepth_toExpr]
    exact inSeed

/-- Threading uses up a layer. -/
theorem fedDepth_threadArguments_le {args : List Expr} {pipeline : Pipeline} {threaded : Threaded}
    (accepted : threadArguments invocation args supply = .ok (pipeline, threaded, rest)) :
    threaded.toExpr.fedDepth invocation ≤ Expr.pipelineDepthOf invocation args := by
  obtain ⟨read, done⟩ := threadArguments_eq_ok.mp accepted
  obtain ⟨es, split, follow⟩ := Pipeline.ofArguments_eq_ok.mp read
  rw [← Expr.pipelineDepthOf_flatten, split, Expr.pipelineDepthOf]
  by_cases none : pipeline.steps = []
  · rw [none, thread_nil] at done
    cases done
    exact Nat.le_trans (Expr.fedDepth_le invocation pipeline.seed) (Nat.le_max_left ..)
  · obtain ⟨start, current, middle, named, statements, final, rfl⟩ := (thread_eq_ok none).mp done
    rw [toExpr_of_steps none done, Expr.fedDepth, statements, final]
    refine Expr.fedDepthOf_le.mpr fun line member => ?_
    simp only [List.map_append, List.mem_append, List.mem_map, List.mem_singleton] at member
    rcases member with (⟨statement, among, rfl⟩ | ⟨statement, among, rfl⟩) | rfl
    · exact Nat.le_trans (fedDepth_nameSeed_le named statement among) (Nat.le_max_left ..)
    · exact Nat.le_trans (fedDepth_threadSteps_le follow among) (Nat.le_max_right ..)
    · exact Nat.zero_le _

end Pipelines
