import Pipelines.Expr.Basic

namespace Pipelines.Expr

/-!
# Flattening

Among the steps of a pipeline a block only groups: its lines are steps
themselves. Flattening splices every such block, however deeply nested, and
leaves all other expressions and their order alone. Blocks inside an argument
or an assignment are not steps and stay as they are.
-/

mutual

/-- The steps that one expression contributes to a pipeline. -/
def splice : Expr → List Expr
  | .block lines => flatten lines
  | e => [e]

def flatten : List Expr → List Expr
  | [] => []
  | e :: es => e.splice ++ flatten es

end

theorem flatten_eq_flatMap (es : List Expr) : flatten es = es.flatMap splice := by
  induction es with
  | nil => rfl
  | cons e es ih => simp [flatten, ih]

@[simp] theorem flatten_append (es fs : List Expr) :
    flatten (es ++ fs) = flatten es ++ flatten fs := by
  simp [flatten_eq_flatMap]

mutual

theorem totalSize_splice_le (e : Expr) : totalSize e.splice ≤ e.size := by
  cases e with
  | block lines =>
      have inner := totalSize_flatten_le lines
      simp only [splice, size]
      omega
  | _ => simp [splice, totalSize]

theorem totalSize_flatten_le (es : List Expr) : totalSize (flatten es) ≤ totalSize es := by
  cases es with
  | nil => simp [flatten]
  | cons e es =>
      have first := totalSize_splice_le e
      have others := totalSize_flatten_le es
      simp only [flatten, totalSize_append, totalSize]
      omega

end

end Pipelines.Expr
