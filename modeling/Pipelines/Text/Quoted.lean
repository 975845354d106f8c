import Pipelines.Text.Combining
import Pipelines.Text.Unprintable

namespace Pipelines.Text

def quotedChar (c : Char) : List Char :=
  if c = '\x00' then ['\\', '0']
  else if c = '\t' then ['\\', 't']
  else if c = '\r' then ['\\', 'r']
  else if c = '\n' then ['\\', 'n']
  else if c = '\\' then ['\\', '\\']
  else if c = '\"' then ['\\', '\"']
  else if isCombining c || isUnprintable c then
    ['\\', 'u', '\x7b'] ++ Nat.toDigits 16 c.toNat ++ ['\x7d']
  else [c]

/-- A text between quotes, readable without ambiguity. -/
def quoted (text : String) : String :=
  .ofList ('\"' :: text.toList.flatMap quotedChar ++ ['\"'])

end Pipelines.Text
