import Pipelines.Exchange.Quotation

namespace Pipelines.Exchange

theorem hexValue_digitChar : ∀ d < 16, hexValue? (Nat.digitChar d) = some d := by
  decide

theorem readUnit_written {unit : Nat} (small : unit < 256) (rest : List Char) :
    readUnit ('0' :: '0' :: Nat.digitChar (unit / 16) :: Nat.digitChar (unit % 16) :: rest) =
      .ok (unit, rest) := by
  have high := hexValue_digitChar (unit / 16) (by omega)
  have low := hexValue_digitChar (unit % 16) (by omega)
  have zero : hexValue? '0' = some 0 := rfl
  have sum : unit / 16 * 16 + unit % 16 = unit := by omega
  have digits : hexValues? '0' '0' (Nat.digitChar (unit / 16)) (Nat.digitChar (unit % 16)) =
      some unit := by
    simp [hexValues?, high, low, zero, sum]
  rw [readUnit, digits]

theorem readEscape_control {c : Char} (control : isControl c = true) (rest : List Char) :
    readEscape ('u' :: '0' :: '0' :: Nat.digitChar (c.toNat / 16) ::
      Nat.digitChar (c.toNat % 16) :: rest) = .ok (c, rest) := by
  have small : c.toNat < 32 := by simpa [isControl] using control
  have lowOut : isLowSurrogate c.toNat = false := by simp [isLowSurrogate]; omega
  have highOut : isHighSurrogate c.toNat = false := by simp [isHighSurrogate]; omega
  simp [readEscape, readCodePoint, readUnit_written (by omega : c.toNat < 256), bind, Except.bind,
    lowOut, highOut, pure, Except.pure]

theorem readText_escape (text : List Char) :
    readText ('\\' :: text) = (do
      let (c, rest) ← readEscape text
      let (others, rest) ← readText rest
      return (c :: others, rest)) := by
  rw [readText]
  split
  next cause failed => rw [failed]; rfl
  next c rest found => rw [found]; rfl

theorem readText_plain {c : Char} (notQuote : c ≠ '\"') (notBackslash : c ≠ '\\')
    (printable : isControl c = false) (text : List Char) :
    readText (c :: text) = (do
      let (others, rest) ← readText text
      return (c :: others, rest)) := by
  rw [readText]
  · simp [printable]
  · exact notQuote
  · exact notBackslash

theorem readEscape_letter {letter c : Char} (known : escaped? letter = some c) (rest : List Char) :
    readEscape (letter :: rest) = .ok (c, rest) := by
  rw [readEscape]
  · rw [known]
  · intro code
    subst code
    cases known

/-- A character is written as a letter behind a backslash, as a code, or as it is. -/
theorem writtenChar_cases (c : Char) :
    (∃ letter, writtenChar c = ['\\', letter] ∧ escaped? letter = some c) ∨
    (isControl c = true ∧ writtenChar c = ['\\', 'u', '0', '0', Nat.digitChar (c.toNat / 16),
      Nat.digitChar (c.toNat % 16)]) ∨
    (c ≠ '\"' ∧ c ≠ '\\' ∧ isControl c = false ∧ writtenChar c = [c]) := by
  by_cases listed : c ∈ ['\"', '\\', '\x08', '\x0c', '\n', '\r', '\t']
  · refine .inl ?_
    simp only [List.mem_cons, List.not_mem_nil, or_false] at listed
    rcases listed with rfl | rfl | rfl | rfl | rfl | rfl | rfl <;> exact ⟨_, rfl, rfl⟩
  · refine .inr ?_
    simp only [List.mem_cons, List.not_mem_nil, or_false, not_or] at listed
    obtain ⟨quote, backslash, backspace, feed, line, carriage, tab⟩ := listed
    cases control : isControl c <;>
      simp [writtenChar, quote, backslash, backspace, feed, line, carriage, tab, control]

theorem readText_writtenChar (c : Char) (text : List Char) :
    readText (writtenChar c ++ text) = (do
      let (others, rest) ← readText text
      return (c :: others, rest)) := by
  rcases writtenChar_cases c with ⟨letter, written, known⟩ | ⟨control, written⟩ |
    ⟨notQuote, notBackslash, printable, written⟩
  · simp only [written, List.cons_append, List.nil_append]
    rw [readText_escape, readEscape_letter known]
    rfl
  · simp only [written, List.cons_append, List.nil_append]
    rw [readText_escape, readEscape_control control]
    rfl
  · rw [written]
    exact readText_plain notQuote notBackslash printable text

theorem readText_written (text rest : List Char) :
    readText (text.flatMap writtenChar ++ '\"' :: rest) = .ok (text, rest) := by
  induction text with
  | nil => rw [List.flatMap_nil, List.nil_append, readText]
  | cons c text ih =>
      rw [List.flatMap_cons, List.append_assoc, readText_writtenChar, ih]
      rfl

end Pipelines.Exchange
