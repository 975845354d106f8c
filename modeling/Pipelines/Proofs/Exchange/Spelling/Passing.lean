import Pipelines.Exchange.Skip
import Pipelines.Proofs.Exchange.Spelling.Number
import Pipelines.Proofs.Exchange.Spelling.Text

namespace Pipelines.Exchange

/-- A text that starts with what no blank and no closing bracket is. -/
def Starts (text : List Char) : Prop :=
  ∃ c tail, text = c :: tail ∧ isBlank c = false ∧ c ≠ ']' ∧ c ≠ '}'

theorem Starts.skip {text : List Char} (starts : Starts text) (rest : List Char) :
    skipBlank (text ++ rest) = text ++ rest := by
  obtain ⟨c, tail, rfl, token, _⟩ := starts
  exact skipBlank_of_not_isBlank token

/-- A value that is passed over wherever it stands. -/
structure Passes (value : List Char) : Prop where
  starts : Starts value
  run : ∀ enclosing text rest, skipBlank text = value ++ rest → Stops rest →
    skipValue enclosing text = skipRest enclosing rest

/-- What stands between the brackets of a value, with the key in front of it in an object. -/
structure PassesIn (enclosure : Enclosure) (entry : List Char) : Prop where
  starts : Starts entry
  run : ∀ outer text rest, skipBlank text = entry ++ rest → Stops rest →
    (enclosure.skipKey text >>= skipValue (enclosure :: outer)) =
      skipRest (enclosure :: outer) rest

theorem Passes.element {value : List Char} (passes : Passes value) : PassesIn .list value :=
  ⟨passes.starts, fun outer => passes.run (.list :: outer)⟩

theorem skipColon_blanks {before : List Char} (blank : Blanks before) (text : List Char) :
    skipColon (before ++ ':' :: text) = .ok text := by
  simp [skipColon, blank.skip_to (c := ':') rfl]

theorem Passes.member {key value entry : List Char} (keyed : IsText key) (passes : Passes value)
    (member : IsMember key value entry) : PassesIn .object entry := by
  obtain ⟨before, after, beforeBlank, afterBlank, rfl⟩ := member
  obtain ⟨pieces, valid, rfl⟩ := keyed
  refine ⟨⟨_, _, rfl, rfl, by decide⟩, fun outer text rest found stops => ?_⟩
  have valueFound : skipBlank (after ++ (value ++ rest)) = value ++ rest := by
    rw [afterBlank.skip, passes.starts.skip]
  simp only [quoted, List.append_assoc, List.cons_append, List.nil_append] at found
  simp only [Enclosure.skipKey, found, skipText_pieces valid, bind, Except.bind,
    skipColon_blanks beforeBlank]
  exact passes.run (.object :: outer) _ rest valueFound stops

theorem Passes.members {members : List (List Char × List Char)} {entries : List (List Char)}
    (spelled : List.Forall₂ (fun member => IsMember member.1 member.2) members entries)
    (keyed : ∀ member ∈ members, IsText member.1) (each : ∀ member ∈ members, Passes member.2) :
    ∀ entry ∈ entries, PassesIn .object entry := by
  induction spelled with
  | nil => exact fun entry none => nomatch none
  | cons first _ ih =>
      obtain ⟨key, keys⟩ := List.forall_mem_cons.mp keyed
      obtain ⟨value, values⟩ := List.forall_mem_cons.mp each
      exact List.forall_mem_cons.mpr ⟨value.member key first, ih keys values⟩

theorem skipRest_closing {enclosure : Enclosure} (outer : List Enclosure) {blanks : List Char}
    (blank : Blanks blanks) (rest : List Char) :
    skipRest (enclosure :: outer) (blanks ++ enclosure.closing :: rest) = skipRest outer rest := by
  cases enclosure
  · simp [skipRest_eq, Enclosure.closing, blank.skip_to (c := ']') rfl]
  · simp [skipRest_eq, Enclosure.closing, blank.skip_to (c := '}') rfl]

theorem skipRest_comma {enclosure : Enclosure} (outer : List Enclosure) {blanks : List Char}
    (blank : Blanks blanks) (text : List Char) :
    skipRest (enclosure :: outer) (blanks ++ ',' :: text) =
      (enclosure.skipKey text >>= skipValue (enclosure :: outer)) := by
  simp [skipRest_eq, blank.skip_to (c := ',') rfl]

theorem Enclosure.stops {enclosure : Enclosure} {blanks : List Char} (blank : Blanks blanks)
    (rest : List Char) : Stops (blanks ++ enclosure.closing :: rest) :=
  blank.stops _ (by cases enclosure <;> simp [Enclosure.closing]) rest

/-- The entries of a bracket are passed over one after the other, and the bracket is closed. -/
theorem skip_separated {enclosure : Enclosure} {entries : List (List Char)} {inner : List Char}
    (separated : Separated entries inner)
    (each : ∀ entry ∈ entries, PassesIn enclosure entry) (outer : List Enclosure)
    (text rest : List Char)
    (found : skipBlank text = skipBlank (inner ++ enclosure.closing :: rest)) :
    (enclosure.skipKey text >>= skipValue (enclosure :: outer)) = skipRest outer rest := by
  induction separated generalizing text with
  | @last before entry after beforeBlank afterBlank =>
      have entry := each entry (List.mem_singleton_self entry)
      simp only [List.append_assoc, beforeBlank.skip, entry.starts.skip] at found
      rw [entry.run outer text _ found (enclosure.stops afterBlank rest)]
      exact skipRest_closing outer afterBlank rest
  | @more before entry after entries inner beforeBlank afterBlank _ ih =>
      obtain ⟨entry, others⟩ := List.forall_mem_cons.mp each
      simp only [List.append_assoc, List.cons_append, beforeBlank.skip, entry.starts.skip] at found
      rw [entry.run outer text _ found (afterBlank.stops ',' (by simp) _),
        skipRest_comma outer afterBlank]
      exact ih others _ rfl

theorem Separated.single {entry inner : List Char} (separated : Separated [entry] inner) :
    ∃ before after, Blanks before ∧ Blanks after ∧ inner = before ++ (entry ++ after) := by
  cases separated with
  | last beforeBlank afterBlank => exact ⟨_, _, beforeBlank, afterBlank, rfl⟩
  | more _ _ others => cases others

theorem Separated.starts {entries : List (List Char)} {inner : List Char}
    (separated : Separated entries inner) (each : ∀ entry ∈ entries, Starts entry)
    (rest : List Char) : ∃ c tail, skipBlank (inner ++ rest) = c :: tail ∧
      isBlank c = false ∧ c ≠ ']' ∧ c ≠ '}' := by
  cases separated with
  | last beforeBlank _ | more beforeBlank _ _ =>
      obtain ⟨c, tail, rfl, starts⟩ := each _ (List.mem_cons_self ..)
      simp only [List.append_assoc, List.cons_append, beforeBlank.skip_to starts.1]
      exact ⟨c, _, rfl, starts⟩

theorem Passes.bracketed {enclosure : Enclosure} {opening : Char} {entries : List (List Char)}
    {value : List Char} (opens : Enclosure.ofOpening? opening = some enclosure)
    (each : ∀ entry ∈ entries, PassesIn enclosure entry)
    (bracketed : Bracketed opening enclosure.closing entries value) : Passes value := by
  have token : isBlank opening = false ∧ opening ≠ ']' ∧ opening ≠ '}' := by
    unfold Enclosure.ofOpening? at opens
    split at opens
    · subst opening; decide
    · split at opens
      · subst opening; decide
      · cases opens
  cases bracketed with
  | @empty blanks blank =>
      refine ⟨⟨_, _, rfl, token⟩, fun enclosing text rest found stops => ?_⟩
      simp only [List.append_assoc, List.cons_append, List.nil_append] at found
      have closed : skipBlank (blanks ++ enclosure.closing :: rest) = enclosure.closing :: rest :=
        blank.skip_to (by cases enclosure <;> rfl) rest
      simp only [skipValue_eq, found, opens, closed, if_true]
  | @filled _ inner separated =>
      refine ⟨⟨_, _, rfl, token⟩, fun enclosing text rest found stops => ?_⟩
      simp only [List.append_assoc, List.cons_append, List.nil_append] at found
      obtain ⟨c, tail, start, first, notBracket, notBrace⟩ :=
        separated.starts (fun entry member => (each entry member).starts)
          (enclosure.closing :: rest)
      have notClosing : c ≠ enclosure.closing := by cases enclosure <;> assumption
      simp only [skipValue_eq, found, opens, start, notClosing, if_false]
      exact skip_separated separated each enclosing _ rest
        (by rw [skipBlank_of_not_isBlank first, start])

theorem Passes.of_scalar {value : List Char} (starts : Starts value)
    (plain : ∀ c ∈ value.head?, Enclosure.ofOpening? c = none)
    (skipped : ∀ rest, Stops rest → skipScalar (value ++ rest) = .ok rest) : Passes value := by
  refine ⟨starts, fun enclosing text rest found stops => ?_⟩
  have passed := skipped rest stops
  obtain ⟨c, tail, rfl, _⟩ := starts
  rw [List.cons_append] at found passed
  rw [skipValue_eq, found]
  simp only [plain c rfl, passed]
  rfl

theorem IsValue.passes {value : List Char} (valid : IsValue value) : Passes value := by
  induction valid with
  | word known =>
      simp only [List.mem_cons, List.not_mem_nil, or_false] at known
      rcases known with rfl | rfl | rfl <;>
        exact .of_scalar ⟨_, _, rfl, rfl, by decide⟩ (by simp [Enclosure.ofOpening?])
          fun rest _ => by simp [skipScalar, skipWord]
  | number spelled =>
      obtain ⟨c, tail, same, numeric⟩ := spelled.starts
      have other := ne_of_numeric numeric
      refine .of_scalar ⟨c, tail, same, ?_, other _ (by simp), other _ (by simp)⟩ ?_
        fun rest stops => skipScalar_number spelled stops
      · simp [isBlank, other]
      · rw [same]
        intro d first
        cases first
        simp [Enclosure.ofOpening?, other]
  | text valid =>
      obtain ⟨pieces, valid, rfl⟩ := valid
      refine .of_scalar ⟨_, _, rfl, rfl, by decide⟩ (by simp [Enclosure.ofOpening?, quoted])
        fun rest _ => ?_
      simpa [skipScalar, quoted] using skipText_pieces valid rest
  | list _ bracketed each =>
      have opens : Enclosure.ofOpening? '[' = some .list := rfl
      exact .bracketed opens (fun element member => (each element member).element) bracketed
  | object keyed _ spelled bracketed each =>
      have opens : Enclosure.ofOpening? '{' = some .object := rfl
      exact .bracketed opens (Passes.members spelled keyed each) bracketed

end Pipelines.Exchange
