import Pipelines.Expr.Flatten
import Pipelines.Expr.Hole

namespace Pipelines.Expr

universe u

variable {α : Type u} {invocation : String}

@[simp] theorem name?_name (x : String) : (Expr.name x).name? = some x := rfl

@[simp] theorem hasHole_name (x : String) : (Expr.name x).hasHole invocation = false := rfl

theorem isHole_eq_false_iff {e : Expr} : e.isHole = false ↔ e ≠ .hole := by
  cases e <;> simp [isHole]

theorem name?_fill {e : Expr} (value : Expr) (solid : e.isHole = false) :
    (e.fill invocation value).name? = e.name? := by
  cases e with
  | hole => cases solid
  | call callee args => simp only [fill]; split <;> rfl
  | _ => rfl

theorem fill_call {callee : Expr} (plain : callee.name? ≠ some invocation) (args : List Expr)
    (value : Expr) :
    (Expr.call callee args).fill invocation value =
      .call (callee.fill invocation value) (fillAll invocation args value) := by
  rw [fill, if_neg plain]

/-- Filling makes a pipeline of a call only by putting the name of pipelines in the place of its
callee. -/
theorem eq_hole_of_name?_fill {callee value : Expr} (plain : callee.name? ≠ some invocation)
    (opened : (callee.fill invocation value).name? = some invocation) :
    callee = .hole ∧ value = .name invocation := by
  by_cases vacant : callee = .hole
  · subst vacant
    exact ⟨rfl, name?_eq_some.mp opened⟩
  · rw [name?_fill value (isHole_eq_false_iff.mpr vacant)] at opened
    exact absurd opened plain

mutual

theorem fill_of_not_hasHole {e : Expr} (value : Expr) (closed : e.hasHole invocation = false) :
    e.fill invocation value = e := by
  cases e with
  | call callee args =>
      by_cases pipeline : callee.name? = some invocation
      · simp only [hasHole, pipeline, if_true] at closed
        simp only [fill, pipeline, if_true]
        rw [fillFirst_of_not_firstHasHole value closed]
      · simp only [hasHole, pipeline, if_false, Bool.or_eq_false_iff] at closed
        simp only [fill, pipeline, if_false]
        rw [fill_of_not_hasHole value closed.1, fillAll_of_not_anyHasHole value closed.2]
  | assign target bound =>
      simp only [hasHole, Bool.or_eq_false_iff] at closed
      simp only [fill, fill_of_not_hasHole value closed.1, fill_of_not_hasHole value closed.2]
  | block lines =>
      simp only [hasHole] at closed
      simp only [fill, fillAll_of_not_anyHasHole value closed]
  | marked tag inner =>
      simp only [hasHole] at closed
      simp only [fill, fill_of_not_hasHole value closed]
  | hole => cases closed
  | name x => rfl
  | raw payload => rfl

theorem fillFirst_of_not_firstHasHole {es : List Expr} (value : Expr)
    (closed : firstHasHole invocation es = false) : fillFirst invocation es value = es := by
  cases es with
  | nil => rfl
  | cons e es => simp only [fillFirst, fill_of_not_hasHole value closed]

theorem fillAll_of_not_anyHasHole {es : List Expr} (value : Expr)
    (closed : anyHasHole invocation es = false) : fillAll invocation es value = es := by
  cases es with
  | nil => rfl
  | cons e es =>
      simp only [anyHasHole, Bool.or_eq_false_iff] at closed
      simp only [fillAll, fill_of_not_hasHole value closed.1,
        fillAll_of_not_anyHasHole value closed.2]

end

mutual

/-- A filled tree has a free hole exactly when there was one and the value brings one along. -/
theorem hasHole_fill (value e : Expr) :
    (e.fill invocation value).hasHole invocation =
      (e.hasHole invocation && value.hasHole invocation) := by
  cases e with
  | call callee args =>
      by_cases pipeline : callee.name? = some invocation
      · simp only [fill, hasHole, pipeline, if_true, firstHasHole_fillFirst value args]
      · by_cases opened : (callee.fill invocation value).name? = some invocation
        · obtain ⟨rfl, rfl⟩ := eq_hole_of_name?_fill pipeline opened
          rw [fill_call pipeline, hasHole_name, Bool.and_false]
          simp only [fill, hasHole, name?_name, if_true]
          cases args with
          | nil => rfl
          | cons e es => simp [fillAll, firstHasHole, hasHole_fill (.name invocation) e]
        · simp only [fill, hasHole, pipeline, opened, if_false, hasHole_fill value callee,
            anyHasHole_fillAll value args]
          rw [Bool.and_or_distrib_right]
  | assign target bound =>
      simp only [fill, hasHole, hasHole_fill value target, hasHole_fill value bound]
      rw [Bool.and_or_distrib_right]
  | block lines => simp only [fill, hasHole, anyHasHole_fillAll value lines]
  | marked tag inner => simp only [fill, hasHole, hasHole_fill value inner]
  | hole => simp [fill, hasHole]
  | name x => rfl
  | raw payload => rfl

theorem firstHasHole_fillFirst (value : Expr) (es : List Expr) :
    firstHasHole invocation (fillFirst invocation es value) =
      (firstHasHole invocation es && value.hasHole invocation) := by
  cases es with
  | nil => rfl
  | cons e es => simp only [fillFirst, firstHasHole, hasHole_fill value e]

theorem anyHasHole_fillAll (value : Expr) (es : List Expr) :
    anyHasHole invocation (fillAll invocation es value) =
      (anyHasHole invocation es && value.hasHole invocation) := by
  cases es with
  | nil => rfl
  | cons e es =>
      simp only [fillAll, anyHasHole, hasHole_fill value e, anyHasHole_fillAll value es]
      rw [Bool.and_or_distrib_right]

end

/-- Whether an expression only groups steps. -/
def isBlock : Expr → Bool
  | .block _ => true
  | _ => false

theorem splice_of_not_isBlock {e : Expr} (single : e.isBlock = false) : e.splice = [e] := by
  cases e with
  | block lines => cases single
  | _ => rfl

mutual

theorem not_isBlock_of_mem_splice {e step : Expr} (member : step ∈ e.splice) :
    step.isBlock = false := by
  cases e with
  | block lines => exact not_isBlock_of_mem_flatten member
  | _ => cases List.mem_singleton.mp member; rfl

/-- No step is a block. -/
theorem not_isBlock_of_mem_flatten {es : List Expr} {step : Expr} (member : step ∈ flatten es) :
    step.isBlock = false := by
  cases es with
  | nil => cases member
  | cons e es =>
      rcases List.mem_append.mp member with first | later
      · exact not_isBlock_of_mem_splice first
      · exact not_isBlock_of_mem_flatten later

end

mutual

theorem flatMap_splice {part : Expr → List α}
    (inside : ∀ lines, part (.block lines) = lines.flatMap part) (e : Expr) :
    e.splice.flatMap part = part e := by
  cases e with
  | block lines => rw [splice, flatMap_flatten inside lines, inside lines]
  | _ => simp [splice]

/-- What trees are made of, their steps are made of, as long as a block is made of its lines. -/
theorem flatMap_flatten {part : Expr → List α}
    (inside : ∀ lines, part (.block lines) = lines.flatMap part) (es : List Expr) :
    (flatten es).flatMap part = es.flatMap part := by
  cases es with
  | nil => rfl
  | cons e es =>
      rw [flatten, List.flatMap_append, List.flatMap_cons, flatMap_splice inside e,
        flatMap_flatten inside es]

end

mutual

theorem hasHole_eq_any_splice (e : Expr) :
    e.hasHole invocation = e.splice.any (hasHole invocation) := by
  cases e with
  | block lines => exact anyHasHole_eq_any_flatten lines
  | _ => simp [splice]

/-- A free hole of several trees is a free hole of one of their steps. -/
theorem anyHasHole_eq_any_flatten (es : List Expr) :
    anyHasHole invocation es = (flatten es).any (hasHole invocation) := by
  cases es with
  | nil => rfl
  | cons e es =>
      simp only [anyHasHole, flatten, List.any_append, hasHole_eq_any_splice e,
        anyHasHole_eq_any_flatten es]

end

/-- Filling a tree fills its steps, which may become blocks and group again. -/
theorem splice_fill (value e : Expr) :
    (e.fill invocation value).splice =
      e.splice.flatMap fun step => (step.fill invocation value).splice := by
  symm
  apply flatMap_splice
  intro lines
  rw [fill, splice, flatten_eq_flatMap, fillAll_eq_map, List.flatMap_map]

theorem not_isBlock_fill {e value : Expr} (single : e.isBlock = false)
    (kept : e = .hole → value.isBlock = false) :
    (e.fill invocation value).isBlock = false := by
  cases e with
  | hole => exact kept rfl
  | block lines => cases single
  | call callee args => simp only [fill]; split <;> rfl
  | _ => rfl

theorem splice_fill_name (c : String) (e : Expr) :
    (e.fill invocation (.name c)).splice = e.splice.map (·.fill invocation (.name c)) := by
  have single : ∀ step ∈ e.splice, (step.fill invocation (.name c)).splice =
      [step.fill invocation (.name c)] := fun step member =>
    splice_of_not_isBlock (not_isBlock_fill (not_isBlock_of_mem_splice member) fun _ => rfl)
  rw [splice_fill, List.map_eq_flatMap, List.flatMap_def, List.flatMap_def,
    List.map_congr_left single]

theorem flatten_fillAll_name (c : String) (es : List Expr) :
    flatten (fillAll invocation es (.name c)) =
      (flatten es).map (·.fill invocation (.name c)) := by
  simp only [flatten_eq_flatMap, fillAll_eq_map, List.flatMap_map, List.map_flatMap,
    splice_fill_name]

end Pipelines.Expr
