import Pipelines.Proofs.Filling

namespace Pipelines.Expr

/-!
# The boundary of a pipeline

Holes and fillings look at the first argument of a pipeline, threading at the
first of its flattened arguments. The two agree exactly when the seed is all
that the first argument has to fill: a block may hold steps behind the seed,
and an empty block leaves the seed to a later argument.
-/

variable {invocation : String} {args : List Expr} {value : Expr}

/-- The boundary of a pipeline, drawn by its flattened arguments: the free holes are those of the
seed, and a value that fills them leaves every step as it is. -/
structure BoundaryAgrees (invocation : String) (args : List Expr) (value : Expr) : Prop where
  free : (Expr.call (.name invocation) args).hasHole invocation = true ↔
    ∃ seed steps, flatten args = seed :: steps ∧ seed.hasHole invocation = true
  filled : ∃ others, (Expr.call (.name invocation) args).fill invocation value =
      .call (.name invocation) others ∧
    flatten others = fillFirst invocation (flatten args) value

/-- Whether the first argument of a pipeline has holes in its seed alone: it adds no step with a
free hole, and if it adds nothing at all, then the seed from the other arguments has none. -/
def seedInFront (invocation : String) : List Expr → Bool
  | [] => true
  | first :: rest =>
      match first.splice with
      | [] => !firstHasHole invocation (flatten rest)
      | _ :: steps => !anyHasHole invocation steps

theorem fill_pipeline (invocation : String) (args : List Expr) (value : Expr) :
    (Expr.call (.name invocation) args).fill invocation value =
      .call (.name invocation) (fillFirst invocation args value) := by
  simp [fill]

theorem hasHole_pipeline (invocation : String) (args : List Expr) :
    (Expr.call (.name invocation) args).hasHole invocation = firstHasHole invocation args := by
  simp [hasHole]

theorem firstHasHole_eq_true_iff {es : List Expr} :
    firstHasHole invocation es = true ↔
      ∃ seed steps, es = seed :: steps ∧ seed.hasHole invocation = true := by
  cases es with
  | nil => simp [firstHasHole]
  | cons e es => simp [firstHasHole]

theorem firstHasHole_flatten (front : seedInFront invocation args = true) :
    firstHasHole invocation (flatten args) = firstHasHole invocation args := by
  cases args with
  | nil => rfl
  | cons first rest =>
      simp only [flatten, firstHasHole, hasHole_eq_any_splice first]
      cases spliced : first.splice with
      | nil => simpa [seedInFront, spliced, firstHasHole] using front
      | cons seed steps =>
          simp only [seedInFront, spliced, Bool.not_eq_true'] at front
          rw [anyHasHole_eq_any] at front
          simp [firstHasHole, front]

theorem flatMap_splice_fill_of_not_anyHasHole {steps : List Expr} (value : Expr)
    (closed : anyHasHole invocation steps = false)
    (single : ∀ step ∈ steps, step.isBlock = false) :
    steps.flatMap (fun step => (step.fill invocation value).splice) = steps := by
  induction steps with
  | nil => rfl
  | cons step steps ih =>
      simp only [anyHasHole, Bool.or_eq_false_iff] at closed
      rw [List.flatMap_cons, fill_of_not_hasHole value closed.1,
        splice_of_not_isBlock (single step (by simp)),
        ih closed.2 fun other member => single other (by simp [member])]
      rfl

/-- A seed in front is filled like the first argument, as long as it does not become a block. -/
theorem flatten_fillFirst (front : seedInFront invocation args = true)
    (single : (flatten args).head? = some .hole → value.isBlock = false) :
    flatten (fillFirst invocation args value) = fillFirst invocation (flatten args) value := by
  cases args with
  | nil => rfl
  | cons first rest =>
      simp only [fillFirst, flatten, splice_fill value first]
      cases spliced : first.splice with
      | nil =>
          simp only [seedInFront, spliced, Bool.not_eq_true'] at front
          exact (fillFirst_of_not_firstHasHole value front).symm
      | cons seed steps =>
          simp only [seedInFront, spliced, Bool.not_eq_true'] at front
          have seedSingle : (seed.fill invocation value).isBlock = false := by
            apply not_isBlock_fill
            · exact not_isBlock_of_mem_splice (e := first) (by simp [spliced])
            · intro vacant
              exact single (by simp [flatten, spliced, vacant])
          have stepsKept := flatMap_splice_fill_of_not_anyHasHole value front fun step member =>
            not_isBlock_of_mem_splice (e := first) (by simp [spliced, member])
          simp only [List.flatMap_cons, fillFirst, stepsKept, splice_of_not_isBlock seedSingle,
            List.cons_append, List.nil_append]

theorem hasHole_of_mem_flatten_fillAll {es : List Expr} {step : Expr}
    (closed : value.hasHole invocation = false)
    (member : step ∈ (es.flatMap fun e => (e.fill invocation value).splice)) :
    step.hasHole invocation = false := by
  obtain ⟨e, _, spliced⟩ := List.mem_flatMap.mp member
  have none : (e.fill invocation value).hasHole invocation = false := by
    rw [hasHole_fill, closed, Bool.and_false]
  rw [hasHole_eq_any_splice, List.any_eq_false] at none
  simpa using none step spliced

theorem seedInFront_of_boundaryAgrees (closed : value.hasHole invocation = false)
    (agrees : BoundaryAgrees invocation args value) : seedInFront invocation args = true := by
  cases args with
  | nil => rfl
  | cons first rest =>
      cases spliced : first.splice with
      | nil =>
          have absent := agrees.free
          rw [← firstHasHole_eq_true_iff, hasHole_pipeline] at absent
          simp only [firstHasHole, hasHole_eq_any_splice first, spliced, List.any_nil,
            Bool.false_eq_true, false_iff, flatten, List.nil_append] at absent
          simpa [seedInFront, spliced] using absent
      | cons seed steps =>
          obtain ⟨others, filled, flattened⟩ := agrees.filled
          rw [fill_pipeline] at filled
          cases filled
          simp only [fillFirst, flatten, splice_fill value first, spliced, List.cons_append] at flattened
          have cancelled : (seed :: steps).flatMap (fun step => (step.fill invocation value).splice) =
              seed.fill invocation value :: steps :=
            List.append_cancel_right (flattened.trans (List.cons_append ..).symm)
          simp only [seedInFront, spliced, Bool.not_eq_true']
          rw [anyHasHole_eq_any, List.any_eq_false]
          intro step member
          have among : step ∈ (seed :: steps).flatMap fun e => (e.fill invocation value).splice := by
            rw [cancelled]
            simp [member]
          simp [hasHole_of_mem_flatten_fillAll closed among]

theorem not_isBlock_of_boundaryAgrees (agrees : BoundaryAgrees invocation args value)
    (vacant : (flatten args).head? = some .hole) : value.isBlock = false := by
  obtain ⟨others, _, flattened⟩ := agrees.filled
  obtain ⟨steps, split⟩ := List.head?_eq_some_iff.mp vacant
  have among : value ∈ flatten others := by
    rw [flattened, split]
    simp [fillFirst, fill]
  exact not_isBlock_of_mem_flatten among

/-- Holes and fillings draw the boundary of a pipeline by its flattened arguments exactly when its
seed stands in front and does not become a block itself. -/
theorem boundaryAgrees_iff_seedInFront (closed : value.hasHole invocation = false) :
    BoundaryAgrees invocation args value ↔
      seedInFront invocation args = true ∧
        ((flatten args).head? = some .hole → value.isBlock = false) := by
  constructor
  · intro agrees
    exact ⟨seedInFront_of_boundaryAgrees closed agrees, not_isBlock_of_boundaryAgrees agrees⟩
  · intro parts
    obtain ⟨front, single⟩ := parts
    refine ⟨?_, fillFirst invocation args value, fill_pipeline invocation args value,
      flatten_fillFirst front single⟩
    rw [← firstHasHole_eq_true_iff, hasHole_pipeline, firstHasHole_flatten front]

/-- In `@chain(begin begin end; begin f(_); g end end, h(_))` the seed is `f(_)`, and it stands in
front. -/
theorem boundaryAgrees_of_nested_blocks :
    BoundaryAgrees "@chain"
      [.block [.block [], .block [.call (.name "f") [.hole], .name "g"]], .call (.name "h") [.hole]]
      (.name "y") :=
  (boundaryAgrees_iff_seedInFront (by decide)).mpr ⟨by decide, by decide⟩

/-- The block of `@chain(begin x; f(_) end)` takes the hole of its second step along, and the empty
block of `@chain(begin end, f(_))` hides the seed. -/
theorem not_boundaryAgrees_of_blocks :
    ¬ BoundaryAgrees "@chain" [.block [.name "x", .call (.name "f") [.hole]]] (.name "y") ∧
    ¬ BoundaryAgrees "@chain" [.block [], .call (.name "f") [.hole]] (.name "y") := by
  refine ⟨fun agrees => ?_, fun agrees => ?_⟩
  · have front := seedInFront_of_boundaryAgrees (by decide) agrees
    cases front
  · have front := seedInFront_of_boundaryAgrees (by decide) agrees
    cases front

end Pipelines.Expr
