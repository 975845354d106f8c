import Pipelines.Text.Quoted

namespace Pipelines.Exchange

/-- What stands where something else is expected. -/
inductive Found where
  | null
  | boolean (value : Bool)
  | integer (value : Int)
  /-- A number with a fraction or an exponent, or one beyond the integers that are kept exactly,
  in its shortest decimal form. -/
  | float (digits : String)
  | text (value : String)
  | sequence
  | map
  /-- The bare name of a variant that has contents. -/
  | unitVariant
deriving DecidableEq

def Found.description : Found → String
  | .null => "null"
  | .boolean true => "boolean `true`"
  | .boolean false => "boolean `false`"
  | .integer value => "integer `" ++ toString value ++ "`"
  | .float digits => "floating point `" ++ digits ++ "`"
  | .text value => "string " ++ Text.quoted value
  | .sequence => "sequence"
  | .map => "map"
  | .unitVariant => "unit variant"

inductive Expected where
  | record (name : String)
  | text
  | sequence
  | unit
  /-- A variant together with its contents. -/
  | newtypeVariant
deriving DecidableEq

def Expected.description : Expected → String
  | .record name => "struct " ++ name
  | .text => "a string"
  | .sequence => "a sequence"
  | .unit => "unit"
  | .newtypeVariant => "newtype variant"

inductive ReadError where
  | endOfValue
  | endOfText
  | endOfObject
  | endOfList
  | expectedValue
  | expectedColon
  | expectedCommaOrBrace
  | expectedCommaOrBracket
  | expectedKeyword
  | keyNotText
  | trailingCharacters
  | trailingComma
  | invalidEscape
  | controlCharacter
  /-- The first half of a surrogate pair without a second escape after it. -/
  | unpairedSurrogate
  /-- Half of a surrogate pair where the other half does not fit. -/
  | loneSurrogate
  | invalidNumber
  | numberOutOfRange
  /-- More brackets inside each other than are allowed. -/
  | tooDeep
  | missingField (name : String)
  | duplicateField (name : String)
  | unknownVariant (found : String) (known : List String)
  | invalidLength (found : Nat) (record : String) (fields : Nat)
  | invalidType (found : Found) (expected : Expected)
deriving DecidableEq

/-- The names that are allowed at a place, as a message lists them. -/
def expectedNames (names : List String) : String :=
  let ticked := names.map fun name => "`" ++ name ++ "`"
  match ticked with
  | [first, second] => first ++ " or " ++ second
  | ticked => "one of " ++ ", ".intercalate ticked

def ReadError.message : ReadError → String
  | .endOfValue => "EOF while parsing a value"
  | .endOfText => "EOF while parsing a string"
  | .endOfObject => "EOF while parsing an object"
  | .endOfList => "EOF while parsing a list"
  | .expectedValue => "expected value"
  | .expectedColon => "expected `:`"
  | .expectedCommaOrBrace => "expected `,` or `\x7d`"
  | .expectedCommaOrBracket => "expected `,` or `]`"
  | .expectedKeyword => "expected ident"
  | .keyNotText => "key must be a string"
  | .trailingCharacters => "trailing characters"
  | .trailingComma => "trailing comma"
  | .invalidEscape => "invalid escape"
  | .controlCharacter => "control character (\\u0000-\\u001F) found while parsing a string"
  | .unpairedSurrogate => "unexpected end of hex escape"
  | .loneSurrogate => "lone leading surrogate in hex escape"
  | .invalidNumber => "invalid number"
  | .numberOutOfRange => "number out of range"
  | .tooDeep => "recursion limit exceeded"
  | .missingField name => "missing field `" ++ name ++ "`"
  | .duplicateField name => "duplicate field `" ++ name ++ "`"
  | .unknownVariant found known =>
      "unknown variant `" ++ found ++ "`, expected " ++ expectedNames known
  | .invalidLength found record fields =>
      "invalid length " ++ toString found ++ ", expected struct " ++ record ++ " with "
        ++ toString fields ++ (if fields = 1 then " element" else " elements")
  | .invalidType found expected =>
      "invalid type: " ++ found.description ++ ", expected " ++ expected.description

end Pipelines.Exchange
