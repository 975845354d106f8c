import Pipelines.Exchange.Blank
import Pipelines.Exchange.Number
import Pipelines.Exchange.Quotation

namespace Pipelines.Exchange

def skipWord : List Char → List Char → Except ReadError (List Char)
  | [], text => .ok text
  | _ :: _, [] => .error .endOfValue
  | c :: word, d :: text => if c = d then skipWord word text else .error .expectedKeyword

/-- Passes over a value that has no brackets. -/
def skipScalar : List Char → Except ReadError (List Char)
  | [] => .error .endOfValue
  | '\"' :: rest => skipText rest
  | 'n' :: rest => skipWord "ull".toList rest
  | 't' :: rest => skipWord "rue".toList rest
  | 'f' :: rest => skipWord "alse".toList rest
  | c :: rest =>
      if c = '-' || c.isDigit then skipNumber (c :: rest) else .error .expectedValue

def skipColon (text : List Char) : Except ReadError (List Char) :=
  match skipBlank text with
  | [] => .error .endOfObject
  | ':' :: rest => .ok rest
  | _ => .error .expectedColon

/-- A bracket that is still open. -/
inductive Enclosure where
  | list
  | object
deriving DecidableEq

namespace Enclosure

def ofOpening? (c : Char) : Option Enclosure :=
  if c = '[' then some .list else if c = '{' then some .object else none

def closing : Enclosure → Char
  | .list => ']'
  | .object => '}'

def unclosed : Enclosure → ReadError
  | .list => .endOfList
  | .object => .endOfObject

/-- The fault of a value that is followed by neither a comma nor the closing character. -/
def expectedEnd : Enclosure → ReadError
  | .list => .expectedCommaOrBracket
  | .object => .expectedCommaOrBrace

/-- Passes over what stands in front of a value inside a bracket: the key of a member. -/
def skipKey : Enclosure → List Char → Except ReadError (List Char)
  | .list, text => .ok text
  | .object, text =>
      match skipBlank text with
      | [] => .error .endOfObject
      | '\"' :: rest => do skipColon (← skipText rest)
      | _ => .error .keyNotText

end Enclosure

theorem length_skipWord_le {word text rest : List Char} (skipped : skipWord word text = .ok rest) :
    rest.length ≤ text.length := by
  induction word generalizing text with
  | nil => cases skipped; exact Nat.le_refl _
  | cons c word ih =>
      cases text with
      | nil => cases skipped
      | cons d text =>
          simp only [skipWord] at skipped
          split at skipped
          · have shorter := ih skipped
            simp only [List.length_cons]
            omega
          · cases skipped

theorem length_skipScalar {text rest : List Char} (skipped : skipScalar text = .ok rest) :
    rest.length < text.length := by
  unfold skipScalar at skipped
  split at skipped
  · cases skipped
  · have shorter := length_skipText skipped
    simp only [List.length_cons]
    omega
  · have shorter := length_skipWord_le skipped; simp only [List.length_cons]; omega
  · have shorter := length_skipWord_le skipped; simp only [List.length_cons]; omega
  · have shorter := length_skipWord_le skipped; simp only [List.length_cons]; omega
  · split at skipped
    · exact length_skipNumber skipped
    · cases skipped

theorem length_skipColon {text rest : List Char} (skipped : skipColon text = .ok rest) :
    rest.length < text.length := by
  have trimmed := length_skipBlank_le text
  unfold skipColon at skipped
  split at skipped
  · cases skipped
  · rename_i token
    cases skipped
    simp only [token, List.length_cons] at trimmed
    omega
  · cases skipped

theorem Enclosure.length_skipKey_le {enclosure : Enclosure} {text rest : List Char}
    (skipped : enclosure.skipKey text = .ok rest) : rest.length ≤ text.length := by
  have trimmed := length_skipBlank_le text
  unfold Enclosure.skipKey at skipped
  split at skipped
  · cases skipped; exact Nat.le_refl _
  · split at skipped
    · cases skipped
    · rename_i token
      obtain ⟨after, keyRead, colonRead⟩ := bind_eq_ok.mp skipped
      have shorter := length_skipText keyRead
      have shorterStill := length_skipColon colonRead
      simp only [token, List.length_cons] at trimmed
      omega
    · cases skipped

end Pipelines.Exchange
