import Pipelines.Expr.Basic
import Pipelines.Text.Alphanumeric

namespace Pipelines.Expr

/-- Whether the payload of a raw expression reads as one word. -/
def isWord (payload : String) : Bool :=
  !payload.isEmpty && payload.toList.all fun c =>
    Text.isAlphanumeric c || c == '_' || c == '.' || c == ':' || c == '!'

/-- Whether an argument list can follow an expression directly. Any other callee is set in
parentheses. -/
def standsAlone : Expr → Bool
  | .name _ | .hole | .call _ _ => true
  | .raw payload => isWord payload
  | .assign _ _ | .block _ | .marked _ _ => false

mutual

/-- The surface form of a tree. A call of a broadcast function has a dot in front of its arguments. -/
def render : Expr → String
  | .name x => x
  | .hole => "_"
  | .raw payload => payload
  | .call callee args =>
      match callee with
      | .marked .broadcast inner => inner.render ++ ".(" ++ ", ".intercalate (renderAll args) ++ ")"
      | callee =>
          let head := if callee.standsAlone then callee.render else "(" ++ callee.render ++ ")"
          head ++ "(" ++ ", ".intercalate (renderAll args) ++ ")"
  | .assign target value => target.render ++ " = " ++ value.render
  | .block lines => "begin " ++ "; ".intercalate (renderAll lines) ++ " end"
  | .marked tag inner => tag.spelling ++ " " ++ inner.render

def renderAll : List Expr → List String
  | [] => []
  | e :: es => e.render :: renderAll es

end

end Pipelines.Expr
