import Pipelines.Proofs.Expands
import Pipelines.Proofs.Nodes

namespace Pipelines

/-- The trees that the expansion of a tree comes to, starting from a supply. -/
inductive Visits (invocation : String) : Expr → Supply → Expr → Prop where
  | self (e : Expr) (supply : Supply) : Visits invocation e supply e
  | callee (plain : callee.name? ≠ some invocation) (args : List Expr)
      (inside : Visits invocation callee supply node) :
      Visits invocation (.call callee args) supply node
  | arg (plain : callee.name? ≠ some invocation)
      (head : Expands invocation callee supply callee' middle)
      (earlier : InTurn (Expands invocation) before middle before' later)
      (inside : Visits invocation e later node) (after : List Expr) :
      Visits invocation (.call callee (before ++ e :: after)) supply node
  | target (value : Expr) (inside : Visits invocation target supply node) :
      Visits invocation (.assign target value) supply node
  | value (first : Expands invocation target supply target' middle)
      (inside : Visits invocation value middle node) :
      Visits invocation (.assign target value) supply node
  | line (earlier : InTurn (Expands invocation) before supply before' later)
      (inside : Visits invocation e later node) (after : List Expr) :
      Visits invocation (.block (before ++ e :: after)) supply node
  | inner {inner : Expr} (tag : Tag) (inside : Visits invocation inner supply node) :
      Visits invocation (.marked tag inner) supply node
  | threaded (accepted : threadArguments invocation args supply = .ok (pipeline, threaded, middle))
      (inside : Visits invocation threaded.toExpr middle node) :
      Visits invocation (.call (.name invocation) args) supply node

variable {invocation : String} {supply rest : Supply}

/-- What an expansion comes to is expanded then, into a part of the whole result. -/
theorem Visits.expands {e expanded node : Expr} (visited : Visits invocation e supply node)
    (run : Expands invocation e supply expanded rest) :
    ∃ before node' after, Expands invocation node before node' after ∧
      node'.nodes ⊆ expanded.nodes := by
  induction visited generalizing expanded rest with
  | self => exact ⟨_, _, _, run, fun _ member => member⟩
  | callee plain args _ ih =>
      obtain ⟨callee', _, args', head, _, rfl⟩ := (Expands.call_iff plain).mp run
      obtain ⟨before, node', after, found, within⟩ := ih head
      exact ⟨before, node', after, found, fun x member => by simp [Expr.nodes, within member]⟩
  | arg plain first earlier _ others ih =>
      obtain ⟨callee', _, args', head, tail, rfl⟩ := (Expands.call_iff plain).mp run
      obtain ⟨rfl, rfl⟩ := first.deterministic head
      obtain ⟨_, _, _, again, following, rfl⟩ := tail.split
      obtain ⟨rfl, rfl⟩ := earlier.deterministic again
      obtain ⟨e', _, others', here, _, rfl⟩ := InTurn.cons_iff.mp following
      obtain ⟨before, node', after, found, within⟩ := ih here
      exact ⟨before, node', after, found, fun x member => by
        simp [Expr.nodes, Expr.nodesOf_eq_flatMap, within member]⟩
  | target value _ ih =>
      obtain ⟨target', _, value', head, _, rfl⟩ := Expands.assign_iff.mp run
      obtain ⟨before, node', after, found, within⟩ := ih head
      exact ⟨before, node', after, found, fun x member => by simp [Expr.nodes, within member]⟩
  | value first _ ih =>
      obtain ⟨target', _, value', head, tail, rfl⟩ := Expands.assign_iff.mp run
      obtain ⟨rfl, rfl⟩ := first.deterministic head
      obtain ⟨before, node', after, found, within⟩ := ih tail
      exact ⟨before, node', after, found, fun x member => by simp [Expr.nodes, within member]⟩
  | line earlier _ others ih =>
      obtain ⟨lines', tail, rfl⟩ := Expands.block_iff.mp run
      obtain ⟨_, _, _, again, following, rfl⟩ := tail.split
      obtain ⟨rfl, rfl⟩ := earlier.deterministic again
      obtain ⟨e', _, others', here, _, rfl⟩ := InTurn.cons_iff.mp following
      obtain ⟨before, node', after, found, within⟩ := ih here
      exact ⟨before, node', after, found, fun x member => by
        simp [Expr.nodes, Expr.nodesOf_eq_flatMap, within member]⟩
  | inner tag _ ih =>
      obtain ⟨inner', expanded, rfl⟩ := Expands.marked_iff.mp run
      obtain ⟨before, node', after, found, within⟩ := ih expanded
      exact ⟨before, node', after, found, fun x member => by simp [Expr.nodes, within member]⟩
  | threaded accepted _ ih =>
      obtain ⟨pipeline, threaded, middle, again, result⟩ := Expands.pipeline_iff.mp run
      rw [accepted] at again
      cases again
      exact ih result

end Pipelines
