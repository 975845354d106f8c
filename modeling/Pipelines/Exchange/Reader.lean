import Pipelines.Exchange.Skip

namespace Pipelines.Exchange

/-!
# Readers

A reader takes a value off the front of a text. Every value takes at least one
character, which is part of what a reader is, so that the elements of a list
and the members of an object can be read one after the other until they end.
-/

/-- A way to read a value from the start of a text, giving also the rest of the text. -/
structure Reader (α : Type) where
  run : List Char → Except ReadError (α × List Char)
  progress : ∀ {text value rest}, run text = .ok (value, rest) → rest.length < text.length

/-- What stands at the start of a text, read as far as its kind needs. -/
def findValue (text : List Char) : Except ReadError Found :=
  match text with
  | 'n' :: rest => do
      let _ ← skipWord "ull".toList rest
      return .null
  | 't' :: rest => do
      let _ ← skipWord "rue".toList rest
      return .boolean true
  | 'f' :: rest => do
      let _ ← skipWord "alse".toList rest
      return .boolean false
  | '\"' :: rest => do
      let (value, _) ← readText rest
      return .text (.ofList value)
  | '[' :: _ => return .sequence
  | '{' :: _ => return .map
  | c :: _ => if c = '-' || c.isDigit then readNumber text else throw .expectedValue
  | [] => throw .endOfValue

/-- The fault of a value that is not what is expected. A fault inside the value comes first. -/
def mismatch (text : List Char) (expected : Expected) : ReadError :=
  match findValue text with
  | .ok found => .invalidType found expected
  | .error cause => cause

namespace Reader

def map (f : α → β) (reader : Reader α) : Reader β where
  run text := do
    let (value, rest) ← reader.run text
    return (f value, rest)
  progress read := by
    obtain ⟨⟨value, rest⟩, first, built⟩ := bind_eq_ok.mp read
    cases built
    exact reader.progress first

def delay (reader : Unit → Reader α) : Reader α where
  run text := (reader ()).run text
  progress read := (reader ()).progress read

def skip : Reader Unit where
  run text := do
    let rest ← skipValue [] text
    return ((), rest)
  progress read := by
    obtain ⟨rest, skipped, built⟩ := bind_eq_ok.mp read
    cases built
    exact length_skip.1 _ _ _ skipped

def text : Reader String where
  run text :=
    match skipBlank text with
    | [] => .error .endOfValue
    | '\"' :: rest => do
        let (value, rest) ← readText rest
        return (.ofList value, rest)
    | other => .error (mismatch other .text)
  progress {text _ _} read := by
    have trimmed := length_skipBlank_le text
    split at read
    · cases read
    · rename_i token
      obtain ⟨⟨value, rest⟩, first, built⟩ := bind_eq_ok.mp read
      cases built
      have shorter := length_readText first
      simp only [token, List.length_cons] at trimmed
      omega
    · cases read

def unit : Reader Unit where
  run text :=
    match skipBlank text with
    | [] => .error .endOfValue
    | 'n' :: rest => do
        let rest ← skipWord "ull".toList rest
        return ((), rest)
    | other => .error (mismatch other .unit)
  progress {text _ _} read := by
    have trimmed := length_skipBlank_le text
    split at read
    · cases read
    · rename_i token
      obtain ⟨rest, first, built⟩ := bind_eq_ok.mp read
      cases built
      have shorter := length_skipWord_le first
      simp only [token, List.length_cons] at trimmed
      omega
    · cases read

end Reader

end Pipelines.Exchange
