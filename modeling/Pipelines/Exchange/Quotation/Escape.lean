import Pipelines.Exchange.ReadError
import Pipelines.Outcome

namespace Pipelines.Exchange

def hexValue? (c : Char) : Option Nat :=
  if '0' ≤ c ∧ c ≤ '9' then some (c.toNat - '0'.toNat)
  else if 'a' ≤ c ∧ c ≤ 'f' then some (c.toNat - 'a'.toNat + 10)
  else if 'A' ≤ c ∧ c ≤ 'F' then some (c.toNat - 'A'.toNat + 10)
  else none

def hexValues? (a b c d : Char) : Option Nat := do
  return (← hexValue? a) * 4096 + (← hexValue? b) * 256 + (← hexValue? c) * 16 + (← hexValue? d)

def byteCount (text : List Char) : Nat :=
  text.foldl (fun count c => count + c.utf8Size) 0

/-- Reads the four digits of an escape. A text that ends within four bytes is cut off; otherwise
what is wrong is a digit. -/
def readUnit : List Char → Except ReadError (Nat × List Char)
  | a :: b :: c :: d :: rest =>
      match hexValues? a b c d with
      | some unit => .ok (unit, rest)
      | none => .error .invalidEscape
  | short =>
      if byteCount short < 4 then .error .endOfText else .error .invalidEscape

def isHighSurrogate (unit : Nat) : Bool :=
  0xD800 ≤ unit && unit ≤ 0xDBFF

def isLowSurrogate (unit : Nat) : Bool :=
  0xDC00 ≤ unit && unit ≤ 0xDFFF

def pairedChar (high low : Nat) : Char :=
  Char.ofNat (0x10000 + (high - 0xD800) * 0x400 + (low - 0xDC00))

/-- Reads the second escape of a surrogate pair. An escape gives one UTF-16 unit, and a character
beyond the first 65536 takes two. -/
def readLowSurrogate (high : Nat) : List Char → Except ReadError (Char × List Char)
  | '\\' :: 'u' :: rest => do
      let (low, rest) ← readUnit rest
      if isLowSurrogate low then return (pairedChar high low, rest) else throw .loneSurrogate
  | [] | ['\\'] => .error .endOfText
  | _ => .error .unpairedSurrogate

/-- Reads an escape by code point, after its first two characters. -/
def readCodePoint (text : List Char) : Except ReadError (Char × List Char) := do
  let (unit, rest) ← readUnit text
  if isLowSurrogate unit then throw .loneSurrogate
  else if isHighSurrogate unit then readLowSurrogate unit rest
  else return (Char.ofNat unit, rest)

def escaped? (c : Char) : Option Char :=
  if c = '\"' ∨ c = '\\' ∨ c = '/' then some c
  else if c = 'b' then some '\x08'
  else if c = 'f' then some '\x0c'
  else if c = 'n' then some '\n'
  else if c = 'r' then some '\r'
  else if c = 't' then some '\t'
  else none

def readEscape : List Char → Except ReadError (Char × List Char)
  | [] => .error .endOfText
  | 'u' :: rest => readCodePoint rest
  | c :: rest =>
      match escaped? c with
      | some d => .ok (d, rest)
      | none => .error .invalidEscape

def isControl (c : Char) : Bool :=
  c.toNat < 0x20

theorem length_readUnit {text rest : List Char} {unit : Nat}
    (read : readUnit text = .ok (unit, rest)) : rest.length < text.length := by
  unfold readUnit at read
  split at read
  · split at read
    · cases read; simp only [List.length_cons]; omega
    · cases read
  · split at read <;> cases read

theorem length_readLowSurrogate {high : Nat} {text rest : List Char} {c : Char}
    (read : readLowSurrogate high text = .ok (c, rest)) : rest.length < text.length := by
  unfold readLowSurrogate at read
  split at read
  · obtain ⟨⟨low, after⟩, unitRead, built⟩ := bind_eq_ok.mp read
    have shorter := length_readUnit unitRead
    dsimp only at built
    split at built
    · simp only [pure, Except.pure, Except.ok.injEq, Prod.mk.injEq] at built
      obtain ⟨-, rfl⟩ := built
      simp only [List.length_cons]
      omega
    · cases built
  · cases read
  · cases read
  · cases read

theorem length_readCodePoint {text rest : List Char} {c : Char}
    (read : readCodePoint text = .ok (c, rest)) : rest.length < text.length := by
  obtain ⟨⟨unit, after⟩, unitRead, built⟩ := bind_eq_ok.mp read
  have shorter := length_readUnit unitRead
  dsimp only at built
  split at built
  · cases built
  · split at built
    · have shorterStill := length_readLowSurrogate built
      omega
    · cases built; exact shorter

theorem length_readEscape {text rest : List Char} {c : Char}
    (read : readEscape text = .ok (c, rest)) : rest.length < text.length := by
  unfold readEscape at read
  split at read
  · cases read
  · have shorter := length_readCodePoint read
    simp only [List.length_cons]
    omega
  · split at read
    · cases read; simp
    · cases read

end Pipelines.Exchange
