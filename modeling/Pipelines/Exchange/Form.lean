import Pipelines.Expr.Basic

namespace Pipelines.Exchange

inductive Form where
  | name
  | call
  | assign
  | block
  | marked
  | hole
  | raw
deriving DecidableEq

/-- The exchanged name of each kind of expression. -/
def formNames : List (String × Form) :=
  [("Ident", .name), ("Call", .call), ("Assign", .assign), ("Group", .block), ("Marker", .marked),
    ("Placeholder", .hole), ("Opaque", .raw)]

def tagNames : List (String × Tag) :=
  [("Aside", .aside), ("Broadcast", .broadcast)]

def tagName : Tag → String
  | .aside => "Aside"
  | .broadcast => "Broadcast"

end Pipelines.Exchange
