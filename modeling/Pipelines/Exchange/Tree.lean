import Pipelines.Exchange.Form
import Pipelines.Exchange.Variant

namespace Pipelines.Exchange

/-!
# Reading trees

A tree is read by how much room is left for further brackets. An expression
takes one bracket for its kind and one for its fields; a list among them takes a
third. At most 127 brackets may stand inside each other.
-/

namespace Reader

def tag (content : Option (Reader Unit)) : Reader Tag :=
  variant tagNames .ok (content.map fun content tag => content.map fun _ => tag)

structure Inside where
  expr : Reader Expr
  exprs : Reader (List Expr)
  tag : Reader Tag

def contents (inside : Option Inside) : Form → Reader Expr
  | .name =>
      (record1 "Ident" (inside.map fun _ => ⟨"name", text⟩)).map .name
  | .call =>
      (record2 "NodeCall" (inside.map fun inside =>
        (⟨"callee", inside.expr⟩, ⟨"args", inside.exprs⟩))).map fun (callee, args) =>
          .call callee args
  | .assign =>
      (record2 "NodeAssign" (inside.map fun inside =>
        (⟨"target", inside.expr⟩, ⟨"value", inside.expr⟩))).map fun (target, value) =>
          .assign target value
  | .block =>
      (record1 "NodeGroup" (inside.map fun inside => ⟨"lines", inside.exprs⟩)).map .block
  | .marked =>
      (record2 "NodeMarker" (inside.map fun inside =>
        (⟨"tag", inside.tag⟩, ⟨"inner", inside.expr⟩))).map fun (tag, inner) =>
          .marked tag inner
  | .hole => unit.map fun _ => .hole
  | .raw =>
      (record1 "NodeOpaque" (inside.map fun _ => ⟨"payload", text⟩)).map .raw

/-- What a bare name stands for: only the hole has no contents. -/
def bareForm : Form → Except ReadError Expr
  | .hole => .ok .hole
  | _ => .error (.invalidType .unitVariant .newtypeVariant)

/-- Reads an expression, given whether there is room for its first bracket, and for its second. -/
def exprWith (inside : Option (Option Inside)) : Reader Expr :=
  variant formNames bareForm (inside.map contents)

/-- Reads an expression with room for a number of further brackets. -/
def expr : Nat → Reader Expr
  | 0 => exprWith none
  | 1 => exprWith (some none)
  | 2 => exprWith (some (some ⟨.delay fun _ => expr 0, list none, tag none⟩))
  | room + 3 =>
      exprWith (some (some ⟨.delay fun _ => expr (room + 1),
        list (some (.delay fun _ => expr room)), tag (some unit)⟩))

end Reader

def nestingLimit : Nat := 127

/-- Reads a text that is a tree and nothing else. -/
def readTree (text : List Char) : Except ReadError Expr := do
  let (e, rest) ← (Reader.expr nestingLimit).run text
  if (skipBlank rest).isEmpty then return e else throw .trailingCharacters

end Pipelines.Exchange
