import Pipelines.Error
import Pipelines.Expr.Render
import Pipelines.Outcome

namespace Pipelines

/-!
# Steps

A flattened expression is read as a step by its shape alone: an aside first,
then a broadcast, then an assignment, and otherwise a plain step. `Step.ofExpr`
keeps all that it reads: `Step.toExpr` gives the expression back.
-/

/-- How a step uses the value it receives. -/
inductive StepKind where
  | plain
  | assignPlain
  | aside
  | broadcast
  | assignBroadcast
deriving DecidableEq

namespace StepKind

def label : StepKind → String
  | .plain => "Plain"
  | .assignPlain => "AssignPlain"
  | .aside => "Aside"
  | .broadcast => "Broadcast"
  | .assignBroadcast => "AssignBroadcast"

def isAssignment : StepKind → Bool
  | .assignPlain | .assignBroadcast => true
  | .plain | .aside | .broadcast => false

def isBroadcast : StepKind → Bool
  | .broadcast | .assignBroadcast => true
  | .plain | .assignPlain | .aside => false

end StepKind

structure Step where
  /-- The position among the flattened steps. -/
  index : Nat
  kind : StepKind
  /-- The name under which the author keeps the value. -/
  binding : Option String
  /-- What is left without the directive and the assignment: for a broadcast, the function. -/
  expr : Expr
deriving DecidableEq

namespace Step

/-- The function of a broadcast has to be a bare name. -/
def broadcastFunction (index : Nat) : Expr → Except Error Expr
  | .name f => .ok (.name f)
  | inner => .error (.malformedMarker index inner.render)

def ofExpr (index : Nat) : Expr → Except Error Step
  | .marked .aside inner => .ok ⟨index, .aside, none, inner⟩
  | .marked .broadcast inner => do
      let function ← broadcastFunction index inner
      return ⟨index, .broadcast, none, function⟩
  | .assign (.name y) (.marked .broadcast inner) => do
      let function ← broadcastFunction index inner
      return ⟨index, .assignBroadcast, some y, function⟩
  | .assign (.name y) value => .ok ⟨index, .assignPlain, some y, value⟩
  | .assign target _ => .error (.ambiguousTarget index target.render)
  | e => .ok ⟨index, .plain, none, e⟩

/-- Reads expressions as the steps from a position on. The first that is no step decides the
error. -/
def ofExprs (index : Nat) : List Expr → Except Error (List Step)
  | [] => .ok []
  | e :: es => do
      let step ← ofExpr index e
      let steps ← ofExprs (index + 1) es
      return step :: steps

/-- The expression that reads as a step. -/
def toExpr (step : Step) : Expr :=
  let body := if step.kind.isBroadcast then .marked .broadcast step.expr else step.expr
  match step.kind, step.binding with
  | .aside, _ => .marked .aside body
  | _, some y => .assign (.name y) body
  | _, none => body

theorem eq_of_broadcastFunction {index : Nat} {inner function : Expr}
    (accepted : broadcastFunction index inner = .ok function) : function = inner := by
  cases inner with
  | name f => cases accepted; rfl
  | _ => cases accepted

theorem toExpr_ofExpr {index : Nat} {e : Expr} {step : Step}
    (accepted : ofExpr index e = .ok step) : step.toExpr = e := by
  unfold ofExpr at accepted
  split at accepted
  · cases accepted; rfl
  · obtain ⟨function, named, built⟩ := bind_eq_ok.mp accepted
    cases built
    rw [eq_of_broadcastFunction named]
    rfl
  · obtain ⟨function, named, built⟩ := bind_eq_ok.mp accepted
    cases built
    rw [eq_of_broadcastFunction named]
    rfl
  · cases accepted; rfl
  · cases accepted
  · cases accepted; rfl

end Step

end Pipelines
