import Pipelines.Exchange.Skip.Token
import Pipelines.Proofs.Exchange.Spelling

namespace Pipelines.Exchange

theorem Blanks.isBlank {blanks : List Char} (blank : Blanks blanks) :
    ∀ c ∈ blanks, isBlank c = true := by
  intro c member
  have listed := blank c member
  simp only [List.mem_cons, List.not_mem_nil, or_false] at listed
  rcases listed with rfl | rfl | rfl | rfl <;> rfl

theorem Blanks.skip {blanks : List Char} (blank : Blanks blanks) (text : List Char) :
    skipBlank (blanks ++ text) = skipBlank text :=
  List.dropWhile_append_of_pos blank.isBlank

theorem Blanks.skip_to {blanks : List Char} (blank : Blanks blanks) {c : Char}
    (token : Exchange.isBlank c = false) (text : List Char) :
    skipBlank (blanks ++ c :: text) = c :: text := by
  rw [blank.skip, skipBlank_of_not_isBlank token]

/-- A text that no number goes on into. -/
def Stops (text : List Char) : Prop :=
  ∀ c ∈ text.head?, c.isDigit = false ∧ c ∉ ['.', 'e', 'E']

theorem Blanks.stops_before {blanks rest : List Char} (blank : Blanks blanks)
    (stops : Stops rest) : Stops (blanks ++ rest) := by
  cases blanks with
  | nil => exact stops
  | cons c others =>
      have noDigit : ∀ c ∈ [' ', '\t', '\n', '\r'], c.isDigit = false ∧ c ∉ ['.', 'e', 'E'] := by
        simp
      intro d first
      cases first
      exact noDigit c (blank c (by simp))

theorem Blanks.stops_alone {blanks : List Char} (blank : Blanks blanks) : Stops blanks := by
  have nothing : Stops [] := nofun
  have stops := blank.stops_before nothing
  rwa [List.append_nil] at stops

theorem Blanks.stops {blanks : List Char} (blank : Blanks blanks) (mark : Char)
    (ends : mark ∈ [',', ']', '}']) (rest : List Char) : Stops (blanks ++ mark :: rest) := by
  have noDigit : ∀ c ∈ [',', ']', '}'], c.isDigit = false ∧ c ∉ ['.', 'e', 'E'] := by simp
  refine blank.stops_before fun c first => ?_
  cases first
  exact noDigit mark ends

theorem dropDigits_of_stops {rest : List Char} (ends : ∀ c ∈ rest.head?, c.isDigit = false) :
    rest.dropWhile Char.isDigit = rest := by
  cases rest with
  | nil => rfl
  | cons c rest => simp [ends c rfl]

theorem skipDigits_digits {digits : List Char} (spelled : Digits digits) {rest : List Char}
    (ends : ∀ c ∈ rest.head?, c.isDigit = false) : skipDigits (digits ++ rest) = .ok rest := by
  obtain ⟨some, each⟩ := spelled
  cases digits with
  | nil => exact absurd rfl some
  | cons c digits =>
      obtain ⟨first, others⟩ := List.forall_mem_cons.mp each
      rw [List.cons_append, skipDigits, if_pos first, List.dropWhile_append_of_pos others,
        dropDigits_of_stops ends]

theorem skipExponent_none {rest : List Char} (stops : Stops rest) :
    skipExponent rest = .ok rest := by
  unfold skipExponent
  split
  case h_7 => rfl
  all_goals exact absurd (stops _ rfl).2 (by decide)

theorem skipExponent_spelled {exponent : List Char} (spelled : IsExponent exponent)
    {rest : List Char} (stops : Stops rest) : skipExponent (exponent ++ rest) = .ok rest := by
  rcases spelled with rfl | ⟨letter, known, sign, signed, digits, spelled, rfl⟩
  · exact skipExponent_none stops
  · have passed := skipDigits_digits spelled fun c first => (stops c first).1
    obtain ⟨some, each⟩ := spelled
    cases digits with
    | nil => exact absurd rfl some
    | cons digit digits =>
        have digital := each digit (by simp)
        have notPlus : digit ≠ '+' := fun same => by subst same; cases digital
        have notMinus : digit ≠ '-' := fun same => by subst same; cases digital
        simp only [List.mem_cons, List.not_mem_nil, or_false] at known signed
        rcases known with rfl | rfl <;> rcases signed with rfl | rfl | rfl <;>
          simpa [skipExponent, notPlus, notMinus] using passed

theorem head_exponent {exponent : List Char} (spelled : IsExponent exponent) {rest : List Char}
    (stops : Stops rest) :
    ∀ c ∈ (exponent ++ rest).head?, c.isDigit = false ∧ c ≠ '.' := by
  rcases spelled with rfl | ⟨letter, known, sign, _, digits, _, rfl⟩
  · intro c first
    obtain ⟨notDigit, notListed⟩ := stops c first
    exact ⟨notDigit, fun point => notListed (by simp [point])⟩
  · intro c first
    cases first
    simp only [List.mem_cons, List.not_mem_nil, or_false] at known
    rcases known with rfl | rfl <;> decide

theorem skipFraction_spelled {fraction exponent : List Char} (spelled : IsFraction fraction)
    (spelledExponent : IsExponent exponent) {rest : List Char} (stops : Stops rest) :
    skipFraction (fraction ++ (exponent ++ rest)) = .ok rest := by
  have behind := head_exponent spelledExponent stops
  have passed := skipExponent_spelled spelledExponent stops
  rcases spelled with rfl | ⟨digits, spelled, rfl⟩
  · rw [List.nil_append, skipFraction]
    · exact passed
    · exact fun after point => absurd rfl (behind '.' (by rw [point]; rfl)).2
  · rw [List.cons_append, skipFraction, skipDigits_digits spelled fun c first => (behind c first).1]
    exact passed

theorem head_fraction {fraction exponent : List Char} (spelled : IsFraction fraction)
    (spelledExponent : IsExponent exponent) {rest : List Char} (stops : Stops rest) :
    ∀ c ∈ (fraction ++ (exponent ++ rest)).head?, c.isDigit = false := by
  rcases spelled with rfl | ⟨digits, _, rfl⟩
  · exact fun c first => (head_exponent spelledExponent stops c first).1
  · intro c first
    cases first
    rfl

theorem skipUnsigned_spelled {whole fraction exponent : List Char} (spelledWhole : IsWhole whole)
    (spelled : IsFraction fraction) (spelledExponent : IsExponent exponent) {rest : List Char}
    (stops : Stops rest) :
    skipUnsigned (whole ++ (fraction ++ (exponent ++ rest))) = .ok rest := by
  have behind := head_fraction spelled spelledExponent stops
  have passed := skipFraction_spelled spelled spelledExponent stops
  rcases spelledWhole with rfl | ⟨digits, notZero⟩
  · have alone : (fraction ++ (exponent ++ rest)).head?.any Char.isDigit = false := by
      cases head : (fraction ++ (exponent ++ rest)).head? with
      | none => rfl
      | some c => exact behind c head
    rw [List.cons_append, List.nil_append, skipUnsigned, alone]
    exact passed
  · rw [skipUnsigned, skipDigits_digits digits behind]
    · exact passed
    · intro after zero
      cases whole with
      | nil => exact absurd rfl digits.1
      | cons c whole => cases zero; exact notZero rfl

theorem IsWhole.starts {whole : List Char} (spelled : IsWhole whole) :
    ∃ c tail, whole = c :: tail ∧ c.isDigit = true := by
  rcases spelled with rfl | ⟨⟨some, each⟩, _⟩
  · exact ⟨'0', [], rfl, rfl⟩
  · cases whole with
    | nil => exact absurd rfl some
    | cons c tail => exact ⟨c, tail, rfl, each c (by simp)⟩

theorem skipNumber_spelled {number : List Char} (spelled : IsNumber number) {rest : List Char}
    (stops : Stops rest) : skipNumber (number ++ rest) = .ok rest := by
  obtain ⟨sign, signed, whole, fraction, exponent, spelledWhole, spelled, spelledExponent, rfl⟩ :=
    spelled
  have passed := skipUnsigned_spelled spelledWhole spelled spelledExponent stops
  simp only [List.mem_cons, List.not_mem_nil, or_false] at signed
  simp only [List.append_assoc]
  rcases signed with rfl | rfl
  · rw [List.nil_append, skipNumber]
    · exact passed
    · intro after minus
      obtain ⟨c, tail, rfl, digit⟩ := spelledWhole.starts
      cases minus
      cases digit
  · exact passed

theorem IsNumber.starts {number : List Char} (spelled : IsNumber number) :
    ∃ c tail, number = c :: tail ∧ (c = '-' ∨ c.isDigit = true) := by
  obtain ⟨sign, signed, whole, fraction, exponent, spelledWhole, _, _, rfl⟩ := spelled
  simp only [List.mem_cons, List.not_mem_nil, or_false] at signed
  rcases signed with rfl | rfl
  · obtain ⟨c, tail, rfl, digit⟩ := spelledWhole.starts
    exact ⟨c, _, rfl, .inr digit⟩
  · exact ⟨'-', _, rfl, .inl rfl⟩

/-- Of what starts with a sign or a digit nothing else can start. -/
theorem ne_of_numeric {c : Char} (numeric : c = '-' ∨ c.isDigit = true) :
    ∀ d ∈ ['\"', 'n', 't', 'f', '[', '{', ']', '}', ' ', '\t', '\n', '\r'], c ≠ d := by
  rintro d listed rfl
  rcases numeric with rfl | digit
  · revert listed
    decide
  · have notDigit : ∀ d ∈ ['\"', 'n', 't', 'f', '[', '{', ']', '}', ' ', '\t', '\n', '\r'],
        d.isDigit = false := by simp
    simp [notDigit c listed] at digit

theorem skipScalar_number {number : List Char} (spelled : IsNumber number) {rest : List Char}
    (stops : Stops rest) : skipScalar (number ++ rest) = .ok rest := by
  have passed := skipNumber_spelled spelled stops
  obtain ⟨c, tail, rfl, numeric⟩ := spelled.starts
  have other := ne_of_numeric numeric
  have number : (c = '-' || c.isDigit) = true := by simpa using numeric
  rw [List.cons_append, skipScalar, if_pos number]
  · exact passed
  all_goals exact other _ (by simp)

end Pipelines.Exchange
