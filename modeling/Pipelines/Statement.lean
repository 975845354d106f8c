import Pipelines.Expr.Basic

namespace Pipelines

inductive Binding where
  /-- Kept under a synthesised name. -/
  | temp (name : String)
  /-- Kept under a name that the author chose. -/
  | user (name : String)
  /-- Evaluated for its effect alone. -/
  | discard
deriving DecidableEq

def Binding.name? : Binding → Option String
  | .temp x | .user x => some x
  | .discard => none

structure Statement where
  binding : Binding
  value : Expr
deriving DecidableEq

namespace Statement

def toExpr (statement : Statement) : Expr :=
  match statement.binding.name? with
  | some x => .assign (.name x) statement.value
  | none => statement.value

def largestValue : List Statement → Nat
  | [] => 0
  | statement :: rest => max statement.value.size (largestValue rest)

theorem largestValue_lt {statements : List Statement} {bound : Nat} (positive : 0 < bound)
    (below : ∀ statement ∈ statements, statement.value.size < bound) :
    largestValue statements < bound := by
  induction statements with
  | nil => exact positive
  | cons statement rest ih =>
      have first := below statement (by simp)
      have others := ih fun other member => below other (by simp [member])
      simp only [largestValue]
      omega

end Statement

structure Threaded where
  statements : List Statement
  /-- A name as soon as there is a statement, and otherwise the seed. -/
  final : Expr
deriving DecidableEq

/-- One block that ends in the final value, or the final value alone when there is no statement. -/
def Threaded.toExpr (threaded : Threaded) : Expr :=
  match threaded.statements with
  | [] => threaded.final
  | statements => .block (statements.map Statement.toExpr ++ [threaded.final])

end Pipelines
