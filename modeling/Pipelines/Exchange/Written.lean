import Pipelines.Exchange.Form
import Pipelines.Exchange.Quotation

namespace Pipelines.Exchange

def newLine (depth : Nat) : List Char :=
  '\n' :: List.replicate (2 * depth) ' '

/-- Written elements inside brackets, each on a line of its own. -/
def writeLines (opening closing : Char) (depth : Nat) : List (List Char) → List Char
  | [] => [opening, closing]
  | first :: others =>
      let separated := others.flatMap fun other => ',' :: newLine (depth + 1) ++ other
      opening :: (newLine (depth + 1) ++ (first ++ (separated ++ (newLine depth ++ [closing]))))

def writeList (depth : Nat) (elements : List (List Char)) : List Char :=
  writeLines '[' ']' depth elements

/-- A written object, of written values under their keys. -/
def writeObject (depth : Nat) (members : List (String × List Char)) : List Char :=
  writeLines '{' '}' depth (members.map fun (key, value) => writeText key ++ ':' :: ' ' :: value)

/-- A written variant: an object of one member, whose contents are an object. -/
def writeVariant (depth : Nat) (name : String) (fields : List (String × List Char)) : List Char :=
  writeObject depth [(name, writeObject (depth + 1) fields)]

mutual

def writeExpr (depth : Nat) : Expr → List Char
  | .name x => writeVariant depth "Ident" [("name", writeText x)]
  | .call callee args =>
      writeVariant depth "Call"
        [("callee", writeExpr (depth + 2) callee),
          ("args", writeList (depth + 2) (writeExprs (depth + 3) args))]
  | .assign target value =>
      writeVariant depth "Assign"
        [("target", writeExpr (depth + 2) target), ("value", writeExpr (depth + 2) value)]
  | .block lines =>
      writeVariant depth "Group" [("lines", writeList (depth + 2) (writeExprs (depth + 3) lines))]
  | .marked tag inner =>
      writeVariant depth "Marker"
        [("tag", writeText (tagName tag)), ("inner", writeExpr (depth + 2) inner)]
  | .hole => writeText "Placeholder"
  | .raw payload => writeVariant depth "Opaque" [("payload", writeText payload)]

def writeExprs (depth : Nat) : List Expr → List (List Char)
  | [] => []
  | e :: es => writeExpr depth e :: writeExprs depth es

end

theorem writeExprs_eq_map (depth : Nat) (es : List Expr) :
    writeExprs depth es = es.map (writeExpr depth) := by
  induction es with
  | nil => rfl
  | cons e es ih => simp [writeExprs, ih]

/-- The written form of a tree: every member and every element stands on a line of its own, two
spaces further in than the bracket around it. -/
def writeTree (e : Expr) : String :=
  .ofList (writeExpr 0 e)

end Pipelines.Exchange
