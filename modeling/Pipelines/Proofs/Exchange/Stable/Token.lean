import Pipelines.Exchange.Skip
import Pipelines.Proofs.Exchange.Quotation
import Pipelines.Proofs.Exchange.Spelling.Text

namespace Pipelines.Exchange

variable {text rest : List Char}

theorem skipBlank_append {c : Char} {tail : List Char} (token : skipBlank text = c :: tail)
    (more : List Char) : skipBlank (text ++ more) = c :: (tail ++ more) := by
  rw [skipBlank, List.dropWhile_append, ← skipBlank, token]
  rfl

theorem readUnit_append {unit : Nat} (read : readUnit text = .ok (unit, rest)) (more : List Char) :
    readUnit (text ++ more) = .ok (unit, rest ++ more) := by
  unfold readUnit at read
  split at read
  · split at read
    · rename_i digits
      cases read
      simp only [List.cons_append, readUnit, digits]
    · cases read
  · split at read <;> cases read

theorem readLowSurrogate_append {high : Nat} {c : Char}
    (read : readLowSurrogate high text = .ok (c, rest)) (more : List Char) :
    readLowSurrogate high (text ++ more) = .ok (c, rest ++ more) := by
  unfold readLowSurrogate at read
  split at read
  · obtain ⟨⟨low, after⟩, unitRead, built⟩ := bind_eq_ok.mp read
    rw [List.cons_append, List.cons_append, readLowSurrogate]
    refine bind_eq_ok.mpr ⟨_, readUnit_append unitRead more, ?_⟩
    dsimp only at built ⊢
    split at built
    · rename_i paired
      simp only [pure, Except.pure, Except.ok.injEq, Prod.mk.injEq] at built
      obtain ⟨rfl, rfl⟩ := built
      rw [if_pos paired]
      rfl
    · cases built
  all_goals cases read

theorem readCodePoint_append {c : Char} (read : readCodePoint text = .ok (c, rest))
    (more : List Char) : readCodePoint (text ++ more) = .ok (c, rest ++ more) := by
  obtain ⟨⟨unit, after⟩, unitRead, built⟩ := bind_eq_ok.mp read
  refine bind_eq_ok.mpr ⟨_, readUnit_append unitRead more, ?_⟩
  dsimp only at built ⊢
  split at built
  · cases built
  · rename_i notLow
    rw [if_neg notLow]
    split at built
    · rename_i high
      rw [if_pos high]
      exact readLowSurrogate_append built more
    · rename_i notHigh
      cases built
      rw [if_neg notHigh]
      rfl

theorem readEscape_append {c : Char} (read : readEscape text = .ok (c, rest)) (more : List Char) :
    readEscape (text ++ more) = .ok (c, rest ++ more) := by
  unfold readEscape at read
  split at read
  · cases read
  · exact readCodePoint_append read more
  · split at read
    · rename_i known
      cases read
      exact readEscape_letter known (rest ++ more)
    · cases read

theorem readText_append {value : List Char} (read : readText text = .ok (value, rest))
    (more : List Char) : readText (text ++ more) = .ok (value, rest ++ more) := by
  fun_induction readText text generalizing value rest with
  | case1 => cases read
  | case2 after =>
      cases read
      rw [List.cons_append, readText]
  | case3 => cases read
  | case4 after c following escape ih =>
      obtain ⟨⟨others, remaining⟩, othersRead, built⟩ := bind_eq_ok.mp read
      cases built
      rw [List.cons_append, readText_escape]
      exact bind_eq_ok.mpr ⟨_, readEscape_append escape more,
        bind_eq_ok.mpr ⟨_, ih othersRead, rfl⟩⟩
  | case5 => cases read
  | case6 c after notQuote notBackslash printable ih =>
      obtain ⟨⟨others, remaining⟩, othersRead, built⟩ := bind_eq_ok.mp read
      cases built
      rw [List.cons_append, readText_plain notQuote notBackslash (by simpa using printable)]
      exact bind_eq_ok.mpr ⟨_, ih othersRead, rfl⟩

theorem skipText_append (skipped : skipText text = .ok rest) (more : List Char) :
    skipText (text ++ more) = .ok (rest ++ more) := by
  fun_induction skipText text with
  | case1 => cases skipped
  | case2 after =>
      cases skipped
      rw [List.cons_append, skipText]
  | case3 => cases skipped
  | case4 after ih =>
      obtain ⟨⟨unit, digits⟩, unitRead, others⟩ := bind_eq_ok.mp skipped
      rw [List.cons_append, List.cons_append, skipText]
      exact bind_eq_ok.mpr ⟨_, readUnit_append unitRead more, ih others⟩
  | case5 c after notUnit known ih =>
      obtain ⟨d, known⟩ := Option.isSome_iff_exists.mp known
      rw [List.cons_append, List.cons_append, skipText_letter known]
      exact ih skipped
  | case6 => cases skipped
  | case7 => cases skipped
  | case8 c after notQuote notLast notUnit notEscape printable ih =>
      have notBackslash : c ≠ '\\' := by
        rintro rfl
        cases after with
        | nil => exact notLast rfl rfl
        | cons d after => exact notEscape d after rfl rfl
      have legal : PlainChar c := ⟨notQuote, notBackslash, by simpa [isControl] using printable⟩
      rw [List.cons_append, skipText_plain legal]
      exact ih skipped

theorem skipWord_append {word : List Char} (skipped : skipWord word text = .ok rest)
    (more : List Char) : skipWord word (text ++ more) = .ok (rest ++ more) := by
  induction word generalizing text with
  | nil => cases skipped; rfl
  | cons c word ih =>
      cases text with
      | nil => cases skipped
      | cons d text =>
          simp only [List.cons_append, skipWord] at skipped ⊢
          split at skipped
          · rename_i same
            rw [if_pos same]
            exact ih skipped
          · cases skipped

theorem ne_nil_of_length_le (some : rest ≠ []) (shorter : rest.length ≤ text.length) :
    text ≠ [] := by
  rintro rfl
  exact some (List.eq_nil_of_length_eq_zero (Nat.le_zero.mp shorter))

theorem ne_nil_of_length_lt (shorter : rest.length < text.length) : text ≠ [] :=
  List.ne_nil_of_length_pos (Nat.zero_lt_of_lt shorter)

theorem dropDigits_append (some : text.dropWhile Char.isDigit ≠ []) (more : List Char) :
    (text ++ more).dropWhile Char.isDigit = text.dropWhile Char.isDigit ++ more := by
  rw [List.dropWhile_append, if_neg (by simpa using some)]

theorem skipDigits_append (skipped : skipDigits text = .ok rest) (some : rest ≠ [])
    (more : List Char) : skipDigits (text ++ more) = .ok (rest ++ more) := by
  unfold skipDigits at skipped
  split at skipped
  · cases skipped
  · split at skipped
    · rename_i digit
      cases skipped
      rw [List.cons_append, skipDigits, if_pos digit, dropDigits_append some]
    · cases skipped

theorem skipExponent_letter {letter : Char} (known : letter = 'e' ∨ letter = 'E')
    (notPlus : ∀ tail, text ≠ '+' :: tail) (notMinus : ∀ tail, text ≠ '-' :: tail) :
    skipExponent (letter :: text) = skipDigits text := by
  rcases known with rfl | rfl <;>
    rw [skipExponent] <;> simp [notPlus, notMinus]

theorem skipExponent_other (notSmall : ∀ tail, text ≠ 'e' :: tail)
    (notCapital : ∀ tail, text ≠ 'E' :: tail) : skipExponent text = .ok text := by
  rw [skipExponent] <;> simp [notSmall, notCapital]

theorem append_ne_cons {c : Char} (other : ∀ tail, text ≠ c :: tail) (some : text ≠ [])
    (more : List Char) : ∀ tail, text ++ more ≠ c :: tail := by
  cases text with
  | nil => exact absurd rfl some
  | cons d text =>
      intro tail same
      exact other text (by rw [(List.cons.inj same).1])

theorem skipExponent_append (skipped : skipExponent text = .ok rest) (some : rest ≠ [])
    (more : List Char) : skipExponent (text ++ more) = .ok (rest ++ more) := by
  have exponent : ∀ {letter : Char} {digits : List Char}, letter = 'e' ∨ letter = 'E' →
      (∀ tail, digits ≠ '+' :: tail) → (∀ tail, digits ≠ '-' :: tail) →
      skipDigits digits = .ok rest →
      skipExponent (letter :: digits ++ more) = .ok (rest ++ more) := by
    intro letter digits known notPlus notMinus skipped
    have digit : digits ≠ [] := by
      rintro rfl
      cases skipped
    rw [List.cons_append, skipExponent_letter known (append_ne_cons notPlus digit more)
      (append_ne_cons notMinus digit more)]
    exact skipDigits_append skipped some more
  unfold skipExponent at skipped
  split at skipped
  case h_5 notPlus notMinus => exact exponent (.inl rfl) notPlus notMinus skipped
  case h_6 notPlus notMinus => exact exponent (.inr rfl) notPlus notMinus skipped
  case h_7 notSmall notCapital =>
    cases skipped
    exact skipExponent_other (append_ne_cons notSmall some more)
      (append_ne_cons notCapital some more)
  all_goals exact skipDigits_append skipped some more

theorem skipFraction_append (skipped : skipFraction text = .ok rest) (some : rest ≠ [])
    (more : List Char) : skipFraction (text ++ more) = .ok (rest ++ more) := by
  unfold skipFraction at skipped
  split at skipped
  · obtain ⟨after, digits, exponent⟩ := bind_eq_ok.mp skipped
    have behind : after ≠ [] := ne_nil_of_length_le some (length_skipExponent exponent)
    rw [List.cons_append, skipFraction]
    exact bind_eq_ok.mpr ⟨_, skipDigits_append digits behind more,
      skipExponent_append exponent some more⟩
  · rename_i notPoint
    have nonempty : text ≠ [] := by
      rintro rfl
      cases skipped
      exact some rfl
    rw [skipFraction]
    · exact skipExponent_append skipped some more
    · exact append_ne_cons notPoint nonempty more

theorem skipUnsigned_append (skipped : skipUnsigned text = .ok rest) (some : rest ≠ [])
    (more : List Char) : skipUnsigned (text ++ more) = .ok (rest ++ more) := by
  unfold skipUnsigned at skipped
  split at skipped
  · rename_i after
    cases after with
    | nil =>
        cases skipped
        exact absurd rfl some
    | cons c after =>
        rw [List.cons_append, skipUnsigned]
        split at skipped
        · cases skipped
        · rename_i alone
          rw [if_neg (by simpa using alone)]
          exact skipFraction_append skipped some more
  · rename_i notZero
    obtain ⟨after, digits, fraction⟩ := bind_eq_ok.mp skipped
    have behind : after ≠ [] := ne_nil_of_length_le some (length_skipFraction fraction)
    have nonempty : text ≠ [] := by
      rintro rfl
      cases digits
    rw [skipUnsigned]
    · exact bind_eq_ok.mpr ⟨_, skipDigits_append digits behind more,
        skipFraction_append fraction some more⟩
    · exact append_ne_cons notZero nonempty more

theorem skipNumber_append (skipped : skipNumber text = .ok rest) (some : rest ≠ [])
    (more : List Char) : skipNumber (text ++ more) = .ok (rest ++ more) := by
  unfold skipNumber at skipped
  split at skipped
  · exact skipUnsigned_append skipped some more
  · rename_i unsigned
    have nonempty : text ≠ [] := by
      rintro rfl
      cases skipped
    rw [skipNumber]
    · exact skipUnsigned_append skipped some more
    · exact append_ne_cons unsigned nonempty more

theorem skipScalar_append (skipped : skipScalar text = .ok rest) (some : rest ≠ [])
    (more : List Char) : skipScalar (text ++ more) = .ok (rest ++ more) := by
  unfold skipScalar at skipped
  split at skipped
  · cases skipped
  · exact skipText_append skipped more
  · exact skipWord_append skipped more
  · exact skipWord_append skipped more
  · exact skipWord_append skipped more
  · rename_i c after notQuote notNull notTrue notFalse
    split at skipped
    · rename_i numeric
      rw [List.cons_append, skipScalar, if_pos numeric]
      · exact skipNumber_append skipped some more
      · exact notQuote
      · exact notNull
      · exact notTrue
      · exact notFalse
    · cases skipped

theorem skipColon_append (skipped : skipColon text = .ok rest) (more : List Char) :
    skipColon (text ++ more) = .ok (rest ++ more) := by
  unfold skipColon at skipped
  split at skipped
  · cases skipped
  · rename_i token
    cases skipped
    rw [skipColon, skipBlank_append token more]
    rfl
  · cases skipped

theorem Enclosure.skipKey_append {enclosure : Enclosure} (skipped : enclosure.skipKey text = .ok rest)
    (more : List Char) : enclosure.skipKey (text ++ more) = .ok (rest ++ more) := by
  unfold Enclosure.skipKey at skipped
  split at skipped
  · cases skipped
    rfl
  · split at skipped
    · cases skipped
    · rename_i token
      obtain ⟨after, keyRead, colonRead⟩ := bind_eq_ok.mp skipped
      simp only [Enclosure.skipKey, skipBlank_append token more]
      exact bind_eq_ok.mpr ⟨_, skipText_append keyRead more, skipColon_append colonRead more⟩
    · cases skipped

theorem skipRest_of_closing {enclosure : Enclosure} {outer : List Enclosure} {tail : List Char}
    (token : skipBlank text = enclosure.closing :: tail) :
    skipRest (enclosure :: outer) text = skipRest outer tail := by
  cases enclosure <;> simp [skipRest_eq, token, Enclosure.closing]

/-- A value that something follows is passed over in the same way when the text goes on, and so is
the rest of the brackets around it. -/
theorem skip_append (more : List Char) :
    (∀ enclosing text rest, skipValue enclosing text = .ok rest → rest ≠ [] →
      skipValue enclosing (text ++ more) = .ok (rest ++ more)) ∧
    (∀ enclosing text rest, skipRest enclosing text = .ok rest → rest ≠ [] →
      skipRest enclosing (text ++ more) = .ok (rest ++ more)) := by
  -- Along the recursion of both functions. Only behind a number it matters that something is left:
  -- what is left in the end is left behind the number as well.
  let ValueStays : List Enclosure → List Char → Prop := fun enclosing text =>
    ∀ rest, skipValue enclosing text = .ok rest → rest ≠ [] →
      skipValue enclosing (text ++ more) = .ok (rest ++ more)
  let RestStays : List Enclosure → List Char → Prop := fun enclosing text =>
    ∀ rest, skipRest enclosing text = .ok rest → rest ≠ [] →
      skipRest enclosing (text ++ more) = .ok (rest ++ more)
  apply skipValue.mutual_induct ValueStays RestStays
  case case1 =>
    intro enclosing text token rest skipped
    rw [skipValue_eq, token] at skipped
    cases skipped
  case case2 =>
    intro enclosing text c after token enclosure opens inner rest skipped
    simp only [skipValue_eq enclosing, token, opens, inner] at skipped
    cases skipped
  case case3 =>
    intro enclosing text c after token enclosure opens last inner ih rest skipped some
    simp only [skipValue_eq enclosing, token, opens, inner, if_true] at skipped
    simp only [skipValue_eq enclosing, skipBlank_append token more, opens,
      skipBlank_append inner more, if_true]
    exact ih rest skipped some
  case case4 =>
    intro enclosing text c after token enclosure opens d last inner notClosed cause entry rest skipped
    simp only [skipValue_eq enclosing, token, opens, inner, notClosed, if_false, entry] at skipped
    cases skipped
  case case5 =>
    intro enclosing text c after token enclosure opens d last inner notClosed start entry ih rest
      skipped some
    simp only [skipValue_eq enclosing, token, opens, inner, notClosed, if_false, entry] at skipped
    simp only [skipValue_eq enclosing, skipBlank_append token more, opens,
      skipBlank_append inner more, notClosed, if_false]
    exact bind_eq_ok.mpr ⟨_, Enclosure.skipKey_append entry more, ih rest skipped some⟩
  case case6 =>
    intro enclosing text c after token plain cause scalar rest skipped
    simp only [skipValue_eq enclosing, token, plain, scalar] at skipped
    cases skipped
  case case7 =>
    intro enclosing text c after token plain start scalar ih rest skipped some
    simp only [skipValue_eq enclosing, token, plain, scalar] at skipped
    have behind : start ≠ [] := ne_nil_of_length_le some (length_skip.2 _ _ _ skipped)
    simp only [skipValue_eq enclosing, skipBlank_append token more, plain]
    exact bind_eq_ok.mpr ⟨_, skipScalar_append scalar behind more, ih rest skipped some⟩
  case case8 =>
    intro text rest skipped some
    rw [skipRest_nil] at skipped ⊢
    cases skipped
    rfl
  case case9 =>
    intro text enclosure outer token rest skipped
    simp only [skipRest_eq, token] at skipped
    cases skipped
  case case10 =>
    intro text enclosure outer after token cause entry rest skipped
    simp only [skipRest_eq, token, entry] at skipped
    cases skipped
  case case11 =>
    intro text enclosure outer after token start entry ih rest skipped some
    simp only [skipRest_eq, token, entry] at skipped
    simp only [skipRest_eq, skipBlank_append token more]
    exact bind_eq_ok.mpr ⟨_, Enclosure.skipKey_append entry more, ih rest skipped some⟩
  case case12 =>
    intro text enclosure outer after notComma token ih rest skipped some
    rw [skipRest_of_closing token] at skipped
    rw [skipRest_of_closing (skipBlank_append token more)]
    exact ih rest skipped some
  case case13 =>
    intro text enclosure outer c after notComma token notClosed rest skipped
    rw [skipRest_eq, token] at skipped
    split at skipped
    next closed => cases closed
    next comma => exact absurd (List.cons.inj comma).1 notComma
    next closed =>
      obtain ⟨rfl, rfl⟩ := List.cons.inj closed
      simp only [notClosed, if_false] at skipped
      cases skipped

end Pipelines.Exchange
