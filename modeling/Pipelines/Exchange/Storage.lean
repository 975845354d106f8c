import Pipelines.Error
import Pipelines.Exchange.Tree
import Pipelines.Exchange.Written

namespace Pipelines.Exchange

inductive Source where
  | text (content : String)
  | bytes (content : ByteArray)
  /-- A file that does not exist. -/
  | missing
  /-- A stream that fails before its first byte, for a stated reason. -/
  | failing (reason : String)

inductive Target where
  | file
  /-- A file in a directory that does not exist. -/
  | missing
deriving DecidableEq

def notFound : String := "No such file or directory (os error 2)"

def notText : String := "stream did not contain valid UTF-8"

def load (text : String) : Except Error Expr :=
  match readTree text.toList with
  | .ok e => .ok e
  | .error cause => .error (.generic cause.message)

namespace Source

/-- The text at a source. Bytes are decoded before anything is read. -/
def content : Source → Except Error String
  | .text content => .ok content
  | .bytes content =>
      match String.fromUTF8? content with
      | some decoded => .ok decoded
      | none => .error (.generic notText)
  | .missing => .error (.generic notFound)
  | .failing reason => .error (.generic reason)

def load (source : Source) : Except Error Expr := do
  Exchange.load (← source.content)

end Source

/-- What a target holds once a tree has been stored at it. -/
def Target.store (e : Expr) : Target → Except Error String
  | .file => .ok (writeTree e)
  | .missing => .error (.generic notFound)

end Pipelines.Exchange
