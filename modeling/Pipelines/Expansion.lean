import Pipelines.Event
import Pipelines.Threading.Size

namespace Pipelines

/-!
# Expansion

Expansion threads every pipeline of a tree. The outer pipeline goes first, so
that an inner one sees the outer value in its first argument before it is
threaded with its own holes; the values of the statements are expanded in their
order afterwards. All pipelines of a tree draw from one supply, so synthesised
names are unique across the tree.
-/

/-- What is reported of a pipeline that has been threaded. -/
def Pipeline.events (invocation : String) (pipeline : Pipeline) (threaded : Threaded) :
    List Event :=
  pipeline.steps.map Event.ofStep ++
    [.pipeline invocation pipeline.steps.length threaded.statements.length]

mutual

/-- Threads every pipeline inside a tree, with names from a supply. -/
def Expr.expand (invocation : String) (e : Expr) (supply : Supply) : Traced (Expr × Supply) :=
  match e with
  | .call callee args =>
      if callee.name? = some invocation then
        match _accepted : threadArguments invocation args supply with
        | .error cause => .fail cause
        | .ok (pipeline, threaded, supply) => do
            Traced.report (pipeline.events invocation threaded)
            let (statements, supply) ← expandStatements invocation threaded.statements supply
            let (final, supply) ← threaded.final.expand invocation supply
            return (Threaded.toExpr ⟨statements, final⟩, supply)
      else do
        let (callee, supply) ← callee.expand invocation supply
        let (args, supply) ← Expr.expandAll invocation args supply
        return (.call callee args, supply)
  | .assign target value => do
      let (target, supply) ← target.expand invocation supply
      let (value, supply) ← value.expand invocation supply
      return (.assign target value, supply)
  | .block lines => do
      let (lines, supply) ← Expr.expandAll invocation lines supply
      return (.block lines, supply)
  | .marked tag inner => do
      let (inner, supply) ← inner.expand invocation supply
      return (.marked tag inner, supply)
  | .name x => return (.name x, supply)
  | .hole => return (.hole, supply)
  | .raw payload => return (.raw payload, supply)
termination_by (e.size, 0)
decreasing_by
  · apply Prod.Lex.left
    have bounds := size_threadArguments_lt _accepted
    have positive := callee.size_pos
    have largest := Statement.largestValue_lt (by omega) bounds.1
    simp only [Expr.size]
    omega
  · apply Prod.Lex.left
    have bounds := size_threadArguments_lt _accepted
    have positive := callee.size_pos
    simp only [Expr.size]
    omega
  all_goals
    apply Prod.Lex.left
    simp only [Expr.size]
    omega

def Expr.expandAll (invocation : String) (es : List Expr) (supply : Supply) :
    Traced (List Expr × Supply) :=
  match es with
  | [] => return ([], supply)
  | e :: es => do
      let (e, supply) ← e.expand invocation supply
      let (es, supply) ← Expr.expandAll invocation es supply
      return (e :: es, supply)
termination_by (Expr.totalSize es, es.length + 1)
decreasing_by
  · apply Prod.Lex.right' <;> simp [Expr.totalSize]
  · apply Prod.Lex.right' <;> simp [Expr.totalSize]

def expandStatements (invocation : String) (statements : List Statement) (supply : Supply) :
    Traced (List Statement × Supply) :=
  match statements with
  | [] => return ([], supply)
  | statement :: rest => do
      let (value, supply) ← statement.value.expand invocation supply
      let (rest, supply) ← expandStatements invocation rest supply
      return (⟨statement.binding, value⟩ :: rest, supply)
termination_by (Statement.largestValue statements, statements.length + 1)
decreasing_by
  · apply Prod.Lex.right'
    · simp only [Statement.largestValue]; omega
    · simp
  · apply Prod.Lex.right'
    · simp only [Statement.largestValue]; omega
    · simp

end

end Pipelines
