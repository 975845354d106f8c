import Pipelines.Proofs.Exchange.Quotation
import Pipelines.Proofs.Exchange.Spelling

namespace Pipelines.Exchange

theorem escaped_of_letter {letter c : Char} (known : (letter, c) ∈ escapeLetters) :
    escaped? letter = some c := by
  simp only [escapeLetters, List.mem_cons, Prod.mk.injEq, List.not_mem_nil, or_false] at known
  rcases known with ⟨rfl, rfl⟩ | ⟨rfl, rfl⟩ | ⟨rfl, rfl⟩ | ⟨rfl, rfl⟩ | ⟨rfl, rfl⟩ | ⟨rfl, rfl⟩ |
    ⟨rfl, rfl⟩ | ⟨rfl, rfl⟩ <;> rfl

theorem hexValue_upper : ∀ d < 16, hexValue? (Nat.digitChar d).toUpper = some d := by
  decide

theorem hexValue_of_hexDigit {value : Nat} {c : Char} (digit : HexDigit value c) :
    hexValue? c = some value := by
  obtain ⟨small, rfl | rfl⟩ := digit
  · exact hexValue_digitChar value small
  · exact hexValue_upper value small

theorem readUnit_digits {unit : Nat} {digits : List Char} (spelled : UnitDigits unit digits)
    (rest : List Char) : readUnit (digits ++ rest) = .ok (unit, rest) := by
  obtain ⟨values, each, four, rfl⟩ := spelled
  match values, four, each with
  | [w, x, y, z], _, .cons (b := a) first (.cons (b := b) second (.cons (b := c) third
      (.cons (b := d) fourth .nil))) =>
      have digits : hexValues? a b c d = some (w * 4096 + x * 256 + y * 16 + z) := by
        simp [hexValues?, hexValue_of_hexDigit first, hexValue_of_hexDigit second,
          hexValue_of_hexDigit third, hexValue_of_hexDigit fourth]
      simp only [List.cons_append, List.nil_append, readUnit, digits, List.foldl_cons,
        List.foldl_nil]
      congr 2
      omega

theorem not_surrogate (c : Char) :
    isLowSurrogate c.toNat = false ∧ isHighSurrogate c.toNat = false := by
  have valid : c.toNat < 0xD800 ∨ 0xDFFF < c.toNat ∧ c.toNat < 0x110000 := c.valid
  simp only [isLowSurrogate, isHighSurrogate, Bool.and_eq_false_iff, decide_eq_false_iff_not]
  omega

theorem readEscape_code {c : Char} {digits : List Char} (spelled : UnitDigits c.toNat digits)
    (rest : List Char) : readEscape ('u' :: (digits ++ rest)) = .ok (c, rest) := by
  obtain ⟨notLow, notHigh⟩ := not_surrogate c
  simp [readEscape, readCodePoint, readUnit_digits spelled, bind, Except.bind, notLow, notHigh,
    pure, Except.pure]

theorem readEscape_pair {c : Char} {high low : List Char} (beyond : 0x10000 ≤ c.toNat)
    (first : UnitDigits (0xD800 + (c.toNat - 0x10000) / 0x400) high)
    (second : UnitDigits (0xDC00 + (c.toNat - 0x10000) % 0x400) low) (rest : List Char) :
    readEscape ('u' :: (high ++ '\\' :: 'u' :: (low ++ rest))) = .ok (c, rest) := by
  have inRange : c.toNat < 0x110000 := by
    have valid : c.toNat < 0xD800 ∨ 0xDFFF < c.toNat ∧ c.toNat < 0x110000 := c.valid
    omega
  have notLow : isLowSurrogate (0xD800 + (c.toNat - 0x10000) / 0x400) = false := by
    simp [isLowSurrogate]
    omega
  have isHigh : isHighSurrogate (0xD800 + (c.toNat - 0x10000) / 0x400) = true := by
    simp [isHighSurrogate]
    omega
  have isLow : isLowSurrogate (0xDC00 + (c.toNat - 0x10000) % 0x400) = true := by
    simp [isLowSurrogate]
    omega
  have paired : pairedChar (0xD800 + (c.toNat - 0x10000) / 0x400)
      (0xDC00 + (c.toNat - 0x10000) % 0x400) = c := by
    have joined : 0x10000 + (0xD800 + (c.toNat - 0x10000) / 0x400 - 0xD800) * 0x400 +
        (0xDC00 + (c.toNat - 0x10000) % 0x400 - 0xDC00) = c.toNat := by omega
    rw [pairedChar, joined, Char.ofNat_toNat]
  simp [readEscape, readCodePoint, readUnit_digits first, readLowSurrogate, readUnit_digits second,
    bind, Except.bind, notLow, isHigh, isLow, paired, pure, Except.pure]

theorem readText_spelledChar {c : Char} {piece : List Char} (spelled : SpellsChar c piece)
    (text : List Char) :
    readText (piece ++ text) = (do
      let (others, rest) ← readText text
      return (c :: others, rest)) := by
  cases spelled with
  | plain legal =>
      obtain ⟨notQuote, notBackslash, printable⟩ := legal
      exact readText_plain notQuote notBackslash (by simp [isControl]; omega) text
  | letter known =>
      rw [List.cons_append, readText_escape, List.cons_append, List.nil_append,
        readEscape_letter (escaped_of_letter known)]
      rfl
  | code digits =>
      rw [List.cons_append, readText_escape, List.cons_append, readEscape_code digits]
      rfl
  | pair beyond high low =>
      simp only [List.cons_append, List.append_assoc]
      rw [readText_escape, readEscape_pair beyond high low]
      rfl

theorem readText_spelled {value : List Char} {pieces : List (List Char)}
    (spelled : List.Forall₂ SpellsChar value pieces) (rest : List Char) :
    readText (pieces.flatten ++ '\"' :: rest) = .ok (value, rest) := by
  induction spelled with
  | nil => rw [List.flatten_nil, List.nil_append, readText]
  | cons first _ ih =>
      rw [List.flatten_cons, List.append_assoc, readText_spelledChar first, ih]
      rfl

theorem skipText_letter {letter c : Char} (known : escaped? letter = some c) (text : List Char) :
    skipText ('\\' :: letter :: text) = skipText text := by
  rw [skipText]
  · simp [known]
  · intro code
    subst code
    cases known

theorem skipText_plain {c : Char} (legal : PlainChar c) (text : List Char) :
    skipText (c :: text) = skipText text := by
  obtain ⟨notQuote, notBackslash, printable⟩ := legal
  have notControl : isControl c = false := by simpa [isControl] using printable
  rw [skipText]
  · simp [notControl]
  all_goals simp [notQuote, notBackslash]

theorem HexDigit.plain {value : Nat} {c : Char} (digit : HexDigit value c) : PlainChar c := by
  have plain : ∀ d < 16, PlainChar (Nat.digitChar d) ∧ PlainChar (Nat.digitChar d).toUpper := by
    decide
  obtain ⟨small, rfl | rfl⟩ := digit
  · exact (plain value small).1
  · exact (plain value small).2

/-- The digits of a code are checked and then passed over like any other characters. -/
theorem skipText_code {unit : Nat} {digits : List Char} (spelled : UnitDigits unit digits)
    (text : List Char) : skipText ('\\' :: 'u' :: (digits ++ text)) = skipText text := by
  rw [skipText, readUnit_digits spelled]
  obtain ⟨values, each, _, _⟩ := spelled
  change skipText (digits ++ text) = skipText text
  clear * - each
  induction each with
  | nil => rfl
  | cons digit _ ih => rw [List.cons_append, skipText_plain digit.plain, ih]

theorem skipText_piece {piece : List Char} (valid : IsTextPiece piece) (text : List Char) :
    skipText (piece ++ text) = skipText text := by
  cases valid with
  | plain legal => exact skipText_plain legal text
  | letter known => exact skipText_letter (escaped_of_letter known) text
  | code digits => exact skipText_code digits text

theorem skipText_pieces {pieces : List (List Char)}
    (valid : ∀ piece ∈ pieces, IsTextPiece piece) (rest : List Char) :
    skipText (pieces.flatten ++ '\"' :: rest) = .ok rest := by
  induction pieces with
  | nil => rw [List.flatten_nil, List.nil_append, skipText]
  | cons piece pieces ih =>
      obtain ⟨first, others⟩ := List.forall_mem_cons.mp valid
      rw [List.flatten_cons, List.append_assoc, skipText_piece first, ih others]

end Pipelines.Exchange
