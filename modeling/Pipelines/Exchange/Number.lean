import Pipelines.Exchange.Number.Shortest
import Pipelines.Exchange.ReadError
import Pipelines.Outcome

namespace Pipelines.Exchange

/-!
# Numbers

No part of a tree is a number, so a number is read only to say what was found
in place of something else, or passed over inside a member that is not known.
What is found is an integer if it has neither fraction nor exponent and fits 64
bits, and otherwise a binary number.
-/

/-- What the digits of a number amount to so far: `significand * 10 ^ exponent`. -/
structure Scaled where
  significand : Nat
  exponent : Int

/-- Adds digits to a significand as long as it stays below 2^64. Gives also their count and the
text from the first digit that is not added. -/
def addDigits (significand : Nat) : List Char → Nat × Nat × List Char
  | [] => (significand, 0, [])
  | c :: rest =>
      let next := significand * 10 + (c.toNat - '0'.toNat)
      if c.isDigit && next < Nat.pow 2 64 then
        let (significand, count, rest) := addDigits next rest
        (significand, count + 1, rest)
      else (significand, 0, c :: rest)

def readExponent (number : Scaled) (text : List Char) : Except ReadError Scaled :=
  let (negative, text) := match text with
    | '+' :: rest => (false, rest)
    | '-' :: rest => (true, rest)
    | rest => (false, rest)
  match text with
  | [] => .error .endOfValue
  | c :: _ =>
      if c.isDigit then
        let power : Int := Nat.ofDigitChars 10 (text.takeWhile Char.isDigit) 0
        .ok { number with exponent := number.exponent + if negative then -power else power }
      else .error .invalidNumber

def readOptionalExponent (number : Scaled) : List Char → Except ReadError Scaled
  | 'e' :: rest | 'E' :: rest => readExponent number rest
  | _ => .ok number

/-- Reads a fraction, after its point, and what follows it. Digits beyond the significand are
dropped. -/
def readFraction (number : Scaled) (text : List Char) : Except ReadError Scaled :=
  let (significand, count, rest) := addDigits number.significand text
  let number : Scaled := ⟨significand, number.exponent - count⟩
  match count, rest with
  | 0, [] => .error .endOfValue
  | count, rest =>
      if count = 0 ∧ ¬(rest.head?.any Char.isDigit) then .error .invalidNumber
      else readOptionalExponent number (rest.dropWhile Char.isDigit)

def foundFloat (negative : Bool) (number : Scaled) : Except ReadError Found :=
  match Binary64.ofDecimal? number.significand number.exponent with
  | some x => .ok (.float (x.text negative))
  | none => .error .numberOutOfRange

/-- What an integer significand is, with its sign. A negative zero is no integer, nor is what does
not fit a signed word. -/
def foundInteger (negative : Bool) (significand : Nat) : Except ReadError Found :=
  if !negative then .ok (.integer significand)
  else if 0 < significand && significand ≤ Nat.pow 2 63 then .ok (.integer (-significand))
  else foundFloat true ⟨significand, 0⟩

/-- Reads a number, after its sign. -/
def readUnsigned (negative : Bool) (text : List Char) : Except ReadError Found := do
  let (significand, rest) ← match text with
    | [] => throw .endOfValue
    | '0' :: rest =>
        if rest.head?.any Char.isDigit then throw .invalidNumber else pure (0, rest)
    | c :: _ =>
        if c.isDigit then
          let (significand, _, rest) := addDigits 0 text
          pure (significand, rest)
        else throw .invalidNumber
  let overflow := rest.takeWhile Char.isDigit
  let number : Scaled := ⟨significand, overflow.length⟩
  match rest.dropWhile Char.isDigit with
  | '.' :: rest => foundFloat negative (← readFraction number rest)
  | 'e' :: rest | 'E' :: rest => foundFloat negative (← readExponent number rest)
  | _ =>
      if overflow.isEmpty then foundInteger negative significand else foundFloat negative number

def readNumber : List Char → Except ReadError Found
  | '-' :: rest => readUnsigned true rest
  | text => readUnsigned false text

/-- Passes over one digit or more. -/
def skipDigits : List Char → Except ReadError (List Char)
  | [] => .error .invalidNumber
  | c :: rest => if c.isDigit then .ok (rest.dropWhile Char.isDigit) else .error .invalidNumber

def skipExponent : List Char → Except ReadError (List Char)
  | 'e' :: '+' :: rest | 'e' :: '-' :: rest | 'E' :: '+' :: rest | 'E' :: '-' :: rest
  | 'e' :: rest | 'E' :: rest => skipDigits rest
  | rest => .ok rest

def skipFraction : List Char → Except ReadError (List Char)
  | '.' :: rest => do skipExponent (← skipDigits rest)
  | rest => skipExponent rest

/-- Passes over a number, after its sign. A zero at its front stands alone. -/
def skipUnsigned : List Char → Except ReadError (List Char)
  | '0' :: rest => if rest.head?.any Char.isDigit then .error .invalidNumber else skipFraction rest
  | rest => do skipFraction (← skipDigits rest)

def skipNumber : List Char → Except ReadError (List Char)
  | '-' :: rest => skipUnsigned rest
  | text => skipUnsigned text

theorem length_dropDigits_le (text : List Char) :
    (text.dropWhile Char.isDigit).length ≤ text.length :=
  (List.dropWhile_suffix Char.isDigit).length_le

theorem length_skipDigits {text rest : List Char} (skipped : skipDigits text = .ok rest) :
    rest.length < text.length := by
  unfold skipDigits at skipped
  split at skipped
  · cases skipped
  · split at skipped
    · cases skipped
      have shorter := length_dropDigits_le ‹_›
      simp only [List.length_cons]
      omega
    · cases skipped

theorem length_skipExponent {text rest : List Char} (skipped : skipExponent text = .ok rest) :
    rest.length ≤ text.length := by
  unfold skipExponent at skipped
  split at skipped
  case h_7 => cases skipped; exact Nat.le_refl _
  all_goals
    have shorter := length_skipDigits skipped
    simp only [List.length_cons]
    omega

theorem length_skipFraction {text rest : List Char} (skipped : skipFraction text = .ok rest) :
    rest.length ≤ text.length := by
  unfold skipFraction at skipped
  split at skipped
  · obtain ⟨after, digits, exponent⟩ := bind_eq_ok.mp skipped
    have shorter := length_skipDigits digits
    have shorterStill := length_skipExponent exponent
    simp only [List.length_cons]
    omega
  · exact length_skipExponent skipped

theorem length_skipUnsigned {text rest : List Char} (skipped : skipUnsigned text = .ok rest) :
    rest.length < text.length := by
  unfold skipUnsigned at skipped
  split at skipped
  · split at skipped
    · cases skipped
    · have shorter := length_skipFraction skipped
      simp only [List.length_cons]
      omega
  · obtain ⟨after, digits, fraction⟩ := bind_eq_ok.mp skipped
    have shorter := length_skipDigits digits
    have shorterStill := length_skipFraction fraction
    omega

theorem length_skipNumber {text rest : List Char} (skipped : skipNumber text = .ok rest) :
    rest.length < text.length := by
  unfold skipNumber at skipped
  split at skipped
  · have shorter := length_skipUnsigned skipped
    simp only [List.length_cons]
    omega
  · exact length_skipUnsigned skipped

end Pipelines.Exchange
