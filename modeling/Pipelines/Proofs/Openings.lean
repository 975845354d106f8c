import Mathlib.Algebra.GroupWithZero.Nat
import Pipelines.Proofs.Fresh

namespace Pipelines

/-!
# How many pipelines an expansion threads

Expansion goes on inside the block that a pipeline is threaded into. The block
can be larger than the pipeline, and hold pipelines that nobody wrote: a step
that is the bare name of pipelines is called, and a hole in the place of a
callee may be filled with that name. But threading uses up one opening, so an
expansion ends after fewer pipelines than the tree has nodes.
-/

variable {invocation : String} {supply rest : Supply}

namespace Expr

/-- Whether a call is a pipeline or can become one by filling. -/
def opens (invocation : String) (callee : Expr) : Bool :=
  callee.isHole || callee.name? == some invocation

mutual

/-- A bound on the pipelines that expansion of a tree threads: a pipeline, or a call that may become
one, stands for itself and for one more pipeline at each of its steps. -/
def openings (invocation : String) : Expr → Nat
  | .call callee args =>
      if callee.opens invocation then openingsOf invocation args + (flatten args).length
      else callee.openings invocation + openingsOf invocation args
  | .assign target value => target.openings invocation + value.openings invocation
  | .block lines => openingsOf invocation lines
  | .marked _ inner => inner.openings invocation
  | .name _ | .hole | .raw _ => 0

def openingsOf (invocation : String) : List Expr → Nat
  | [] => 0
  | e :: es => e.openings invocation + openingsOf invocation es

end

theorem openingsOf_eq_sum (es : List Expr) :
    openingsOf invocation es = (es.map (openings invocation)).sum := by
  induction es with
  | nil => rfl
  | cons e es ih => simp [openingsOf, ih]

theorem openingsOf_append (es es' : List Expr) :
    openingsOf invocation (es ++ es') = openingsOf invocation es + openingsOf invocation es' := by
  simp [openingsOf_eq_sum]

theorem openings_le_of_mem {e : Expr} {es : List Expr} (member : e ∈ es) :
    e.openings invocation ≤ openingsOf invocation es := by
  induction es with
  | nil => cases member
  | cons first es ih =>
      rw [openingsOf]
      rcases List.mem_cons.mp member with rfl | later
      · omega
      · have bounded := ih later
        omega

mutual

theorem openingsOf_splice (invocation : String) (e : Expr) :
    openingsOf invocation e.splice = e.openings invocation := by
  cases e with
  | block lines => rw [splice, openings, openingsOf_flatten invocation lines]
  | _ => simp [splice, openingsOf]

theorem openingsOf_flatten (invocation : String) (es : List Expr) :
    openingsOf invocation (flatten es) = openingsOf invocation es := by
  cases es with
  | nil => rfl
  | cons e es =>
      have first := openingsOf_splice invocation e
      have others := openingsOf_flatten invocation es
      rw [flatten, openingsOf_append, first, others, openingsOf]

end

mutual

theorem openings_lt_size (invocation : String) (e : Expr) : e.openings invocation < e.size := by
  cases e with
  | call callee args =>
      have inCallee := openings_lt_size invocation callee
      have inArgs := openingsOf_add_length_le invocation args
      rw [openings, size]
      split <;> omega
  | assign target value =>
      have inTarget := openings_lt_size invocation target
      have inValue := openings_lt_size invocation value
      rw [openings, size]
      omega
  | block lines =>
      have inLines := openingsOf_add_length_le invocation lines
      rw [openings, size]
      omega
  | marked tag inner =>
      have inInner := openings_lt_size invocation inner
      rw [openings, size]
      omega
  | _ => simp [openings, size]

theorem openingsOf_add_length_le (invocation : String) (es : List Expr) :
    openingsOf invocation es + (flatten es).length ≤ totalSize es := by
  cases es with
  | nil => simp [openingsOf, flatten]
  | cons e es =>
      have others := openingsOf_add_length_le invocation es
      have first : e.openings invocation + e.splice.length ≤ e.size := by
        cases e with
        | block lines =>
            have inLines := openingsOf_add_length_le invocation lines
            rw [openings, splice, size]
            omega
        | _ => exact openings_lt_size invocation _
      rw [openingsOf, flatten, totalSize, List.length_append]
      omega

end

theorem opens_fill (c : String) {callee : Expr} (closed : callee.opens invocation = false) :
    (callee.fill invocation (.name c)).opens invocation = false := by
  cases callee with
  | hole => cases closed
  | name x => exact closed
  | call callee args => rw [fill]; split <;> rfl
  | _ => rfl

theorem openings_of_opens {callee : Expr} (opened : callee.opens invocation = true) :
    callee.openings invocation = 0 := by
  cases callee with
  | name | hole => rfl
  | _ => cases opened

theorem length_flatten_fillFirst_name (invocation c : String) (es : List Expr) :
    (flatten (fillFirst invocation es (.name c))).length = (flatten es).length := by
  cases es with
  | nil => rfl
  | cons e es => simp [fillFirst, flatten, splice_fill_name]

mutual

theorem openings_fill_le (invocation c : String) (e : Expr) :
    (e.fill invocation (.name c)).openings invocation ≤ e.openings invocation := by
  cases e with
  | call callee args =>
      have inCallee := openings_fill_le invocation c callee
      have inArgs := openingsOf_fillAll_le invocation c args
      by_cases pipeline : callee.name? = some invocation
      · have inFirst := openingsOf_fillFirst_le invocation c args
        have opened : callee.opens invocation = true := by simp [opens, pipeline]
        rw [fill, if_pos pipeline, openings, openings, if_pos opened, if_pos opened,
          length_flatten_fillFirst_name]
        omega
      · rw [fill, if_neg pipeline, openings, openings, flatten_fillAll_name, List.length_map]
        cases opened : callee.opens invocation with
        -- A hole in the place of the callee turns into the name of pipelines or into another one.
        | true =>
            have bare := openings_of_opens opened
            simp only [if_true]
            split <;> omega
        | false =>
            rw [opens_fill c opened]
            simp only [Bool.false_eq_true, if_false]
            omega
  | assign target value =>
      have inTarget := openings_fill_le invocation c target
      have inValue := openings_fill_le invocation c value
      simp only [fill, openings]
      omega
  | block lines => exact openingsOf_fillAll_le invocation c lines
  | marked tag inner => exact openings_fill_le invocation c inner
  | _ => exact Nat.zero_le _

theorem openingsOf_fillFirst_le (invocation c : String) (es : List Expr) :
    openingsOf invocation (fillFirst invocation es (.name c)) ≤ openingsOf invocation es := by
  cases es with
  | nil => exact Nat.le_refl _
  | cons e es =>
      have first := openings_fill_le invocation c e
      simp only [fillFirst, openingsOf]
      omega

theorem openingsOf_fillAll_le (invocation c : String) (es : List Expr) :
    openingsOf invocation (fillAll invocation es (.name c)) ≤ openingsOf invocation es := by
  cases es with
  | nil => exact Nat.le_refl _
  | cons e es =>
      have first := openings_fill_le invocation c e
      have others := openingsOf_fillAll_le invocation c es
      simp only [fillAll, openingsOf]
      omega

end

theorem openings_withFirstArgument_le (invocation c : String) (e : Expr) :
    (e.withFirstArgument (.name c)).openings invocation ≤ e.openings invocation + 1 := by
  cases e with
  | assign target value =>
      have inValue := openings_withFirstArgument_le invocation c value
      simp only [withFirstArgument, openings]
      omega
  | call callee args =>
      simp only [withFirstArgument, openings, openingsOf, flatten, splice, List.singleton_append,
        List.length_cons]
      split <;> omega
  | _ =>
      simp only [withFirstArgument, openings, openingsOf, flatten, splice, List.append_nil,
        List.length_singleton]
      split <;> omega

theorem openings_feed_le (invocation c : String) (e : Expr) :
    (e.feed invocation (.name c)).openings invocation ≤ e.openings invocation + 1 := by
  rw [feed]
  split
  · exact Nat.le_succ_of_le (openings_fill_le invocation c e)
  · exact openings_withFirstArgument_le invocation c e

end Expr

theorem Step.openings_ofExpr {index : Nat} {e : Expr} {step : Step}
    (read : Step.ofExpr index e = .ok step) :
    step.expr.openings invocation = e.openings invocation := by
  have body : step.body.openings invocation = step.expr.openings invocation := by
    unfold Step.body
    split <;> rfl
  rcases Step.ofExpr_cases read with ⟨_, _, rfl⟩ | ⟨_, _, rfl⟩ | ⟨_, y, _, rfl⟩
  · rfl
  · exact body.symm
  · simp [Expr.openings, body]

theorem Step.openings_value_le {index : Nat} {e : Expr} {step : Step}
    (read : Step.ofExpr index e = .ok step) (invocation current : String) :
    (step.value invocation current).openings invocation ≤ e.openings invocation + 1 := by
  rw [← Step.openings_ofExpr read, Step.value]
  split
  · simp [Expr.openings, Expr.openingsOf, Expr.opens, Expr.isHole, Expr.name?]
  · exact Expr.openings_feed_le invocation current step.expr

theorem Statement.openings_toExpr (statement : Statement) :
    statement.toExpr.openings invocation = statement.value.openings invocation := by
  unfold Statement.toExpr
  split
  · simp [Expr.openings]
  · rfl

/-- What the line of each step costs at most, beyond a fixed price, bounds what all lines cost. -/
theorem sum_threadSteps_le {part cost : Expr → Nat} {price index : Nat} {es : List Expr}
    {steps : List Step}
    (each : ∀ {index e step}, Step.ofExpr index e = .ok step → ∀ current supply,
      part (step.thread invocation current supply).1.toExpr ≤ cost e + price)
    (read : Step.ofExprs index es = .ok steps) (current : String) (supply : Supply) :
    (((threadSteps invocation steps current supply).1.map Statement.toExpr).map part).sum ≤
      (es.map cost).sum + price * es.length := by
  induction es generalizing index steps current supply with
  | nil =>
      cases read
      exact Nat.le_refl _
  | cons e es ih =>
      obtain ⟨step, others, first, follow, rfl⟩ := Step.ofExprs_cons_eq_ok.mp read
      rcases threaded : step.thread invocation current supply with ⟨statement, name, after⟩
      have head : part statement.toExpr ≤ cost e + price := by
        simpa only [threaded] using each first current supply
      have tail := ih follow name after
      simp only [threadSteps, threaded, List.map_cons, List.sum_cons, List.length_cons, Nat.mul_succ]
      omega

theorem openingsOf_threadSteps_le (invocation : String) {index : Nat} {es : List Expr} {steps : List Step}
    (read : Step.ofExprs index es = .ok steps) (current : String) (supply : Supply) :
    Expr.openingsOf invocation
        ((threadSteps invocation steps current supply).1.map Statement.toExpr) ≤
      Expr.openingsOf invocation es + es.length := by
  rw [Expr.openingsOf_eq_sum, Expr.openingsOf_eq_sum, ← Nat.one_mul es.length]
  refine sum_threadSteps_le (fun {index e step} found current supply => ?_) read current supply
  rw [Statement.openings_toExpr, Step.value_thread]
  exact Step.openings_value_le found invocation current

theorem openingsOf_nameSeed_le (invocation : String) {seed : Expr} {start : List Statement} {current : String}
    (named : nameSeed seed supply = .ok (start, current, rest)) :
    Expr.openingsOf invocation (start.map Statement.toExpr) ≤ seed.openings invocation := by
  rcases nameSeed_cases named with ⟨_, rfl, _⟩ | ⟨value, rfl, rfl, _⟩ | ⟨_, _, rfl, _⟩
  · exact Nat.zero_le _
  · simp [Expr.openingsOf, Statement.openings_toExpr, Expr.openings]
  · simp [Expr.openingsOf, Statement.openings_toExpr]

/-- Threading uses up an opening. -/
theorem openings_threadArguments_lt {args : List Expr} {pipeline : Pipeline} {threaded : Threaded}
    (accepted : threadArguments invocation args supply = .ok (pipeline, threaded, rest)) :
    threaded.toExpr.openings invocation <
      (Expr.call (.name invocation) args).openings invocation := by
  obtain ⟨read, done⟩ := threadArguments_eq_ok.mp accepted
  obtain ⟨es, split, follow⟩ := Pipeline.ofArguments_eq_ok.mp read
  have opened : (Expr.name invocation).opens invocation = true := by simp [Expr.opens, Expr.name?]
  rw [Expr.openings, if_pos opened, ← Expr.openingsOf_flatten, split, Expr.openingsOf,
    List.length_cons]
  by_cases none : pipeline.steps = []
  · rw [none, thread_nil] at done
    cases done
    simp only [Threaded.toExpr]
    omega
  · obtain ⟨start, current, middle, named, statements, final, rfl⟩ := (thread_eq_ok none).mp done
    have inSeed := openingsOf_nameSeed_le invocation named
    have inSteps := openingsOf_threadSteps_le invocation follow current middle
    rw [toExpr_of_steps none done, Expr.openings, statements, final]
    simp only [List.map_append, Expr.openingsOf_append, Expr.openingsOf, Expr.openings]
    omega

end Pipelines
