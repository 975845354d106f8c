import Pipelines.Exchange.Variant
import Pipelines.Proofs.Exchange.Spelling.Entry

namespace Pipelines.Exchange.Reader

section

variable {field : Member σ} {names : List String} (Lacks : σ → List (String × List Char) → Prop)
  (unknown : ∀ {state lacking key}, Lacks state lacking → key ∉ names →
    field state key = .ok (skip.map fun _ => state))
  (known : ∀ {state lacking member}, Lacks state lacking → member ∈ lacking →
    ∃ reader next, field state member.1 = .ok reader ∧ Takes reader member.2 next ∧
      Lacks next (lacking.erase member))
  {members : List (String × List Char)}
  (others : ∀ member ∈ members, member.1 ∉ names → IsValue member.2)
include unknown known others

theorem gathers_of_perm {state : σ} {lacking : List (String × List Char)}
    (lacks : Lacks state lacking)
    (given : (members.filter fun member => member.1 ∈ names).Perm lacking) :
    ∃ result, Lacks result [] ∧ Gathers field state members result := by
  induction members generalizing state lacking with
  | nil =>
      cases given.symm.eq_nil
      exact ⟨state, lacks, .nil⟩
  | cons member members ih =>
      obtain ⟨other, others⟩ := List.forall_mem_cons.mp others
      -- A field takes itself out of what is lacking, and any other member leaves that as it is.
      by_cases named : member.1 ∈ names
      · rw [List.filter_cons_of_pos (by simpa using named)] at given
        obtain ⟨inLacking, given⟩ := List.cons_perm_iff_perm_erase.mp given
        obtain ⟨reader, next, found, takes, lacksNext⟩ := known lacks inLacking
        obtain ⟨result, complete, gathers⟩ := ih others lacksNext given
        exact ⟨result, complete, .cons found takes gathers⟩
      · rw [List.filter_cons_of_neg (by simpa using named)] at given
        obtain ⟨result, complete, gathers⟩ := ih others lacks given
        exact ⟨result, complete,
          .cons (unknown lacks named) ((takes_skip (other named)).map fun _ => state) gathers⟩

/-- If every lacking field can be read next, and members of other names change nothing, the fields
can be read in any order. -/
theorem members_run_of_perm {start : σ} {finish : σ → Except ReadError α} {value : α}
    {fields : List (String × List Char)} {entries : List (List Char)} {spelled : List Char}
    (lacks : Lacks start fields)
    (finished : ∀ {result}, Lacks result [] → finish result = .ok value)
    (given : (members.filter fun member => member.1 ∈ names).Perm fields)
    (each : List.Forall₂ SpellsMember members entries)
    (bracketed : Bracketed '{' '}' entries spelled) :
    ∃ tail, spelled = '{' :: tail ∧
      ∀ rest, (Reader.members field start finish).run (tail ++ rest) = .ok (value, rest) := by
  obtain ⟨result, complete, gathers⟩ := gathers_of_perm Lacks unknown known others lacks given
  exact members_run bracketed each gathers (finished complete)

end

/-- What is lacking of a field, given what has been read of it. -/
def lacking (target : String × List Char) : Option α → List (String × List Char)
  | none => [target]
  | some _ => []

theorem mem_lacking {target member : String × List Char} {read : Option α}
    (inLacking : member ∈ lacking target read) : read = none ∧ member = target := by
  cases read with
  | none => exact ⟨rfl, List.mem_singleton.mp inLacking⟩
  | some _ => cases inLacking

/-- What is lacking of a record of one field, after some of its members. -/
def Lacks1 (target : String × List Char) (value : α) (state : Option α)
    (rest : List (String × List Char)) : Prop :=
  rest = lacking target state ∧ ∀ found ∈ state, found = value

/-- What is lacking of a record of two fields, after some of its members. -/
def Lacks2 (target target' : String × List Char) (value : α) (other : β)
    (state : Option α × Option β) (rest : List (String × List Char)) : Prop :=
  rest = lacking target state.1 ++ lacking target' state.2 ∧
    (∀ found ∈ state.1, found = value) ∧ ∀ found ∈ state.2, found = other

theorem eq_some_of_lacking {target : String × List Char} {read : Option α} {value : α}
    (complete : lacking target read = []) (right : ∀ found ∈ read, found = value) :
    read = some value := by
  cases read with
  | none => cases complete
  | some found => rw [right found rfl]

section

variable {first : Field α} {text : List Char} {value : α} (takes : Takes first.value text value)
include takes

theorem object1_run {members : List (String × List Char)} {entries : List (List Char)}
    {spelled : List Char}
    (fields : (members.filter fun member => member.1 ∈ [first.name]).Perm [(first.name, text)])
    (others : ∀ member ∈ members, member.1 ∉ [first.name] → IsValue member.2)
    (each : List.Forall₂ SpellsMember members entries)
    (bracketed : Bracketed '{' '}' entries spelled) :
    ∃ tail, spelled = '{' :: tail ∧
      ∀ rest, (object1 first).run (tail ++ rest) = .ok (value, rest) := by
  refine members_run_of_perm (Lacks1 (first.name, text) value) ?unknown ?known others ⟨rfl, nofun⟩
    ?finished fields each bracketed
  case unknown =>
    intro state rest key _ other
    simp only [List.mem_singleton] at other
    exact if_neg other
  case known =>
    rintro state _ member ⟨rfl, _⟩ inLacking
    obtain ⟨rfl, rfl⟩ := mem_lacking inLacking
    exact ⟨_, some value, if_pos rfl, takes.map some, by simp [lacking],
      fun found here => by cases here; rfl⟩
  case finished =>
    rintro result ⟨complete, right⟩
    rw [eq_some_of_lacking complete.symm right]
    rfl

theorem object2_run {second : Field β} {text' : List Char} {other : β}
    (takesOther : Takes second.value text' other) (different : second.name ≠ first.name)
    {members : List (String × List Char)} {entries : List (List Char)} {spelled : List Char}
    (fields : (members.filter fun member => member.1 ∈ [first.name, second.name]).Perm
      [(first.name, text), (second.name, text')])
    (others : ∀ member ∈ members, member.1 ∉ [first.name, second.name] → IsValue member.2)
    (each : List.Forall₂ SpellsMember members entries)
    (bracketed : Bracketed '{' '}' entries spelled) :
    ∃ tail, spelled = '{' :: tail ∧
      ∀ rest, (object2 first second).run (tail ++ rest) = .ok ((value, other), rest) := by
  refine members_run_of_perm (Lacks2 (first.name, text) (second.name, text') value other) ?unknown
    ?known others ⟨rfl, nofun, nofun⟩ ?finished fields each bracketed
  case unknown =>
    intro state rest key _ unlisted
    simp only [List.mem_cons, List.not_mem_nil, or_false, not_or] at unlisted
    exact (if_neg unlisted.1).trans (if_neg unlisted.2)
  case known =>
    rintro ⟨value?, other?⟩ _ member ⟨rfl, right, rightOther⟩ inLacking
    rcases List.mem_append.mp inLacking with inFirst | inSecond
    · obtain ⟨absent, rfl⟩ := mem_lacking inFirst
      cases absent
      exact ⟨_, (some value, other?), if_pos rfl, takes.map _, by simp [lacking],
        fun found here => by cases here; rfl, rightOther⟩
    · obtain ⟨absent, rfl⟩ := mem_lacking inSecond
      cases absent
      have notFirst : (second.name, text') ∉ lacking (first.name, text) value? := fun inFirst =>
        different (Prod.mk.inj (mem_lacking inFirst).2).1
      exact ⟨_, (value?, some other), (if_neg different).trans (if_pos rfl), takesOther.map _,
        by rw [List.erase_append_right _ notFirst]; simp [lacking], right,
        fun found here => by cases here; rfl⟩
  case finished =>
    rintro ⟨value?, other?⟩ ⟨complete, right, rightOther⟩
    obtain ⟨lackingFirst, lackingSecond⟩ := List.append_eq_nil_iff.mp complete.symm
    dsimp only at lackingFirst lackingSecond right rightOther ⊢
    rw [eq_some_of_lacking lackingFirst right, eq_some_of_lacking lackingSecond rightOther]
    rfl

omit takes in
theorem endFields_behind {blanks : List Char} (blank : Blanks blanks) (rest : List Char) :
    endFields (blanks ++ ']' :: rest) = .ok rest := by
  simp [endFields, blank.skip_to (c := ']') rfl]

theorem array1_run {name : String} {spelled : List Char}
    (bracketed : Bracketed '[' ']' [text] spelled) :
    ∃ tail, spelled = '[' :: tail ∧
      ∀ rest, (array1 name first).run (tail ++ rest) = .ok (value, rest) := by
  cases bracketed with
  | filled separated =>
      obtain ⟨before, after, beforeBlank, afterBlank, rfl⟩ := separated.single
      refine ⟨_, rfl, fun rest => ?_⟩
      simp only [List.append_assoc, List.cons_append, List.nil_append, array1,
        firstElement_behind beforeBlank takes.starts, bind, Except.bind, field,
        takes.here (afterBlank.stops ']' (by simp) rest), endFields_behind afterBlank]
      rfl

theorem array2_run {second : Field β} {text' : List Char} {other : β}
    (takesOther : Takes second.value text' other) {name : String} {spelled : List Char}
    (bracketed : Bracketed '[' ']' [text, text'] spelled) :
    ∃ tail, spelled = '[' :: tail ∧
      ∀ rest, (array2 name first second).run (tail ++ rest) = .ok ((value, other), rest) := by
  cases bracketed with
  | filled separated =>
      cases separated with
      | more beforeBlank afterBlank others =>
          obtain ⟨before, after, beforeOther, afterOther, rfl⟩ := others.single
          refine ⟨_, rfl, fun rest => ?_⟩
          simp only [List.append_assoc, List.cons_append, List.nil_append, array2,
            firstElement_behind beforeBlank takes.starts, bind, Except.bind, field,
            takes.here (afterBlank.stops ',' (by simp) _),
            nextElement_behind afterBlank beforeOther takesOther.starts,
            takesOther.here (afterOther.stops ']' (by simp) rest), endFields_behind afterOther]
          rfl

end

theorem takes_record {name : String} {array object : Reader α} {spelled : List Char} {value : α}
    (run : (∃ tail, spelled = '[' :: tail ∧ ∀ rest, array.run (tail ++ rest) = .ok (value, rest)) ∨
      ∃ tail, spelled = '{' :: tail ∧ ∀ rest, object.run (tail ++ rest) = .ok (value, rest)) :
    Takes (record name (some (array, object))) spelled value := by
  rcases run with ⟨tail, rfl, run⟩ | ⟨tail, rfl, run⟩
  all_goals
    refine ⟨⟨_, _, rfl, rfl, by decide⟩, fun text rest found _ => ?_⟩
    rw [List.cons_append] at found
    simp only [record, found, run rest]

theorem takes_record1 {name : String} {first : Field α} {text spelled : List Char} {value : α}
    (takes : Takes first.value text value) (spells : SpellsRecord [(first.name, text)] spelled) :
    Takes (record1 name (some first)) spelled value := by
  cases spells with
  | array bracketed => exact takes_record (.inl (array1_run takes bracketed))
  | object fields others each bracketed =>
      exact takes_record (.inr (object1_run takes fields others each bracketed))

theorem takes_record2 {name : String} {first : Field α} {second : Field β}
    {text text' spelled : List Char} {value : α} {other : β}
    (different : second.name ≠ first.name) (takes : Takes first.value text value)
    (takesOther : Takes second.value text' other)
    (spells : SpellsRecord [(first.name, text), (second.name, text')] spelled) :
    Takes (record2 name (some (first, second))) spelled (value, other) := by
  cases spells with
  | array bracketed => exact takes_record (.inl (array2_run takes takesOther bracketed))
  | object fields others each bracketed =>
      exact takes_record (.inr (object2_run takes takesOther different fields others each bracketed))

section

variable {known : List (String × ν)} {bare : ν → Except ReadError α} {name : String} {form : ν}
  (listed : known.lookup name = some form)
include listed

theorem readVariant_spelled {pieces : List (List Char)}
    (spelled : List.Forall₂ SpellsChar name.toList pieces) (rest : List Char) :
    readVariant known (pieces.flatten ++ '\"' :: rest) = .ok (form, rest) := by
  simp [readVariant, readText_spelled spelled, bind, Except.bind, listed, pure, Except.pure]

theorem takes_bare {contents : Option (ν → Reader α)} {value : α}
    (accepted : bare form = .ok value) {spelled : List Char} (spells : SpellsText name spelled) :
    Takes (variant known bare contents) spelled value := by
  obtain ⟨pieces, each, rfl⟩ := spells
  refine ⟨starts_quoted pieces, fun text rest found _ => ?_⟩
  simp only [quoted, List.cons_append, List.append_assoc, List.nil_append] at found
  simp [variant, found, readVariant_spelled listed each, accepted, bind, Except.bind, pure,
    Except.pure]

theorem takes_variant {contents : ν → Reader α} {inner spelled : List Char} {value : α}
    (takes : Takes (contents form) inner value) (spells : SpellsVariant name inner spelled) :
    Takes (variant known bare (some contents)) spelled value := by
  obtain ⟨entry, ⟨_, ⟨pieces, each, rfl⟩, before, after, beforeBlank, afterBlank, rfl⟩, bracketed⟩ :=
    spells
  cases bracketed with
  | filled separated =>
      obtain ⟨blanks, last, blank, lastBlank, rfl⟩ := separated.single
      refine ⟨⟨_, _, rfl, rfl, by decide⟩, fun text rest found _ => ?_⟩
      have ended : endVariant (last ++ '}' :: rest) = .ok rest := by
        simp [endVariant, lastBlank.skip_to (c := '}') rfl]
      simp only [quoted, List.cons_append, List.append_assoc, List.nil_append] at found
      simp [variant, found, firstMember, blank.skip_to (c := '\"') rfl, variantMember, bind,
        Except.bind, readVariant_spelled listed each, skipColon_blanks beforeBlank,
        takes.behind afterBlank (lastBlank.stops '}' (by simp) rest), ended, pure, Except.pure]

end

end Pipelines.Exchange.Reader
