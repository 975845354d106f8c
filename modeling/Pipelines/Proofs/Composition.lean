import Pipelines.Proofs.Filling

namespace Pipelines.Expr

/-!
# Filling what has been filled

Filling a tree twice is filling it once, with the first value filled by the
second. The first filling may put the name of pipelines in the place of a callee,
and then the second meets a boundary that was not in the tree. That name has no
hole, so by then nothing is left to be filled behind the boundary or in front of
it. A value that brings a hole along is no name and creates no boundary.
-/

variable {invocation : String}

theorem fill_fill_of_not_hasHole {first : Expr} (second e : Expr)
    (closed : first.hasHole invocation = false) :
    (e.fill invocation first).fill invocation second =
      e.fill invocation (first.fill invocation second) := by
  have filled : (e.fill invocation first).hasHole invocation = false := by
    rw [hasHole_fill, closed, Bool.and_false]
  rw [fill_of_not_hasHole second filled, fill_of_not_hasHole second closed]

mutual

theorem fill_fill_of_hasHole {first : Expr} (second e : Expr)
    (holes : first.hasHole invocation = true) :
    (e.fill invocation first).fill invocation second =
      e.fill invocation (first.fill invocation second) := by
  cases e with
  | call callee args =>
      by_cases pipeline : callee.name? = some invocation
      · have inFirst := fillFirst_fillFirst second args holes
        simp only [fill, if_pos pipeline, inFirst]
      · have plain : (callee.fill invocation first).name? ≠ some invocation := by
          intro opened
          obtain ⟨_, rfl⟩ := eq_hole_of_name?_fill pipeline opened
          cases holes
        rw [fill_call pipeline, fill_call plain, fill_call pipeline,
          fill_fill_of_hasHole second callee holes, fillAll_fillAll second args holes]
  | assign target value =>
      have inTarget := fill_fill_of_hasHole second target holes
      have inValue := fill_fill_of_hasHole second value holes
      simp only [fill, inTarget, inValue]
  | block lines =>
      have inLines := fillAll_fillAll second lines holes
      simp only [fill, inLines]
  | marked tag inner =>
      have inInner := fill_fill_of_hasHole second inner holes
      simp only [fill, inInner]
  | hole => rfl
  | name x => rfl
  | raw payload => rfl

theorem fillFirst_fillFirst {first : Expr} (second : Expr) (es : List Expr)
    (holes : first.hasHole invocation = true) :
    fillFirst invocation (fillFirst invocation es first) second =
      fillFirst invocation es (first.fill invocation second) := by
  cases es with
  | nil => rfl
  | cons e es => simp only [fillFirst, fill_fill_of_hasHole second e holes]

theorem fillAll_fillAll {first : Expr} (second : Expr) (es : List Expr)
    (holes : first.hasHole invocation = true) :
    fillAll invocation (fillAll invocation es first) second =
      fillAll invocation es (first.fill invocation second) := by
  cases es with
  | nil => rfl
  | cons e es =>
      simp only [fillAll, fill_fill_of_hasHole second e holes, fillAll_fillAll second es holes]

end

/-- Two fillings are one filling with the second applied to the first value, and a filled tree has a
free hole exactly when both the tree and the value had one. -/
theorem fillings_compose (invocation : String) (e first second : Expr) :
    (e.fill invocation first).fill invocation second =
        e.fill invocation (first.fill invocation second) ∧
      (e.fill invocation first).hasHole invocation =
        (e.hasHole invocation && first.hasHole invocation) := by
  refine ⟨?_, hasHole_fill first e⟩
  cases holes : first.hasHole invocation with
  | false => exact fill_fill_of_not_hasHole second e holes
  | true => exact fill_fill_of_hasHole second e holes

/-- The first filling of `_(_, g(_))` makes a pipeline of it, with a step that the second would not
reach. There is no hole left in it. -/
example (second : Expr) :
    fill "@chain" (.call .hole [.hole, .call (.name "g") [.hole]]) (.name "@chain") =
      .call (.name "@chain") [.name "@chain", .call (.name "g") [.name "@chain"]] ∧
    fill "@chain" (.call (.name "@chain") [.name "@chain", .call (.name "g") [.name "@chain"]])
        second =
      .call (.name "@chain") [.name "@chain", .call (.name "g") [.name "@chain"]] := by
  exact ⟨by cbv, rfl⟩

end Pipelines.Expr
