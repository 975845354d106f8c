import Pipelines.Exchange.Member
import Pipelines.Proofs.Exchange.Spelling.Passing

namespace Pipelines.Exchange

theorem SpellsMember.quote {member : String × List Char} {entry : List Char}
    (spells : SpellsMember member entry) : ∃ tail, entry = '\"' :: tail := by
  obtain ⟨_, ⟨pieces, _, rfl⟩, _, _, _, _, rfl⟩ := spells
  exact ⟨_, rfl⟩

theorem SpellsMember.starts {member : String × List Char} {entry : List Char}
    (spells : SpellsMember member entry) : Starts entry := by
  obtain ⟨tail, rfl⟩ := spells.quote
  exact ⟨_, _, rfl, rfl, by decide⟩

namespace Reader

/-- A reader takes a spelled value off the front of any text that goes on with something else. -/
structure Takes (reader : Reader α) (spelled : List Char) (value : α) : Prop where
  starts : Starts spelled
  run : ∀ text rest, skipBlank text = spelled ++ rest → Stops rest →
    reader.run text = .ok (value, rest)

theorem Takes.map {reader : Reader α} {spelled : List Char} {value : α}
    (takes : Takes reader spelled value) (f : α → β) : Takes (reader.map f) spelled (f value) := by
  refine ⟨takes.starts, fun text rest found stops => ?_⟩
  simp only [Reader.map, takes.run text rest found stops]
  rfl

theorem Takes.delay {reader : Reader α} {spelled : List Char} {value : α}
    (takes : Takes reader spelled value) : Takes (.delay fun _ => reader) spelled value :=
  ⟨takes.starts, takes.run⟩

theorem Takes.behind {reader : Reader α} {spelled : List Char} {value : α}
    (takes : Takes reader spelled value) {blanks : List Char} (blank : Blanks blanks)
    {rest : List Char} (stops : Stops rest) :
    reader.run (blanks ++ (spelled ++ rest)) = .ok (value, rest) :=
  takes.run _ rest (by rw [blank.skip, takes.starts.skip]) stops

theorem Takes.here {reader : Reader α} {spelled : List Char} {value : α}
    (takes : Takes reader spelled value) {rest : List Char} (stops : Stops rest) :
    reader.run (spelled ++ rest) = .ok (value, rest) :=
  takes.run _ rest (takes.starts.skip rest) stops

theorem starts_quoted (pieces : List (List Char)) : Starts (quoted pieces) :=
  ⟨_, _, rfl, rfl, by decide⟩

theorem takes_text {value : String} {spelled : List Char} (spells : SpellsText value spelled) :
    Takes text spelled value := by
  obtain ⟨pieces, each, rfl⟩ := spells
  refine ⟨starts_quoted pieces, fun input rest found _ => ?_⟩
  simp only [quoted, List.cons_append, List.append_assoc, List.nil_append] at found
  simp [text, found, readText_spelled each, bind, Except.bind, pure, Except.pure]

theorem takes_unit : Takes unit "null".toList () := by
  refine ⟨⟨_, _, rfl, rfl, by decide⟩, fun text rest found _ => ?_⟩
  replace found : skipBlank text = 'n' :: 'u' :: 'l' :: 'l' :: rest := found
  simp [unit, found, skipWord, bind, Except.bind, pure, Except.pure]

theorem takes_skip {spelled : List Char} (valid : IsValue spelled) : Takes skip spelled () := by
  refine ⟨valid.passes.starts, fun text rest found stops => ?_⟩
  simp only [skip, valid.passes.run [] text rest found stops, skipRest_nil]
  rfl

theorem firstElement_spelled {inner : List Char} {c : Char} {tail : List Char}
    (found : skipBlank inner = c :: tail) (notClosing : c ≠ ']') :
    firstElement inner = .ok (.another (skipBlank inner)) := by
  simp [firstElement, found, notClosing]

theorem nextElement_comma {blanks inner : List Char} (blank : Blanks blanks) {c : Char}
    {tail : List Char} (found : skipBlank inner = c :: tail) (notClosing : c ≠ ']') :
    nextElement (blanks ++ ',' :: inner) = .ok (.another (skipBlank inner)) := by
  simp [nextElement, blank.skip_to (c := ',') rfl, found, notClosing]

theorem firstElement_behind {blanks text : List Char} (blank : Blanks blanks)
    (starts : Starts text) (rest : List Char) :
    firstElement (blanks ++ (text ++ rest)) = .ok (.another (text ++ rest)) := by
  have found : skipBlank (blanks ++ (text ++ rest)) = text ++ rest := by
    rw [blank.skip, starts.skip]
  obtain ⟨c, tail, rfl, _, notClosing, _⟩ := starts
  rw [firstElement_spelled found notClosing, found]

theorem nextElement_behind {after blanks text : List Char} (afterBlank : Blanks after)
    (blank : Blanks blanks) (starts : Starts text) (rest : List Char) :
    nextElement (after ++ ',' :: (blanks ++ (text ++ rest))) = .ok (.another (text ++ rest)) := by
  have found : skipBlank (blanks ++ (text ++ rest)) = text ++ rest := by
    rw [blank.skip, starts.skip]
  obtain ⟨c, tail, rfl, _, notClosing, _⟩ := starts
  rw [nextElement_comma afterBlank found notClosing, found]

theorem nextElement_end {blanks : List Char} (blank : Blanks blanks) (rest : List Char) :
    nextElement (blanks ++ ']' :: rest) = .ok (.closed rest) := by
  simp [nextElement, blank.skip_to (c := ']') rfl]

section

variable {element : Reader α} {values : List α} {texts : List (List Char)}

theorem starts_of_takes (each : List.Forall₂ (Takes element) texts values) :
    ∀ text ∈ texts, Starts text := by
  induction each with
  | nil => exact fun text none => nomatch none
  | cons takes _ ih => exact List.forall_mem_cons.mpr ⟨takes.starts, ih⟩

theorem elementsFrom_separated {inner : List Char} (separated : Separated texts inner)
    (each : List.Forall₂ (Takes element) texts values) (rest : List Char) :
    element.elementsFrom (.another (skipBlank (inner ++ ']' :: rest))) = .ok (values, rest) := by
  induction separated generalizing values with
  | last beforeBlank afterBlank =>
      cases each with
      | cons takes others =>
          cases others
          simp only [List.append_assoc, beforeBlank.skip, takes.starts.skip]
          rw [elementsFrom, takes.here (afterBlank.stops ']' (by simp) rest)]
          simp only [bind, Except.bind, moreElements_eq, nextElement_end afterBlank]
          rfl
  | @more before entry after entries inner beforeBlank afterBlank more ih =>
      cases each with
      | cons takes others =>
          obtain ⟨c, tail, found, _, notClosing, _⟩ :=
            more.starts (starts_of_takes others) (']' :: rest)
          simp only [List.append_assoc, List.cons_append, beforeBlank.skip, takes.starts.skip]
          rw [elementsFrom, takes.here (afterBlank.stops ',' (by simp) _)]
          simp only [bind, Except.bind, moreElements_eq, nextElement_comma afterBlank found notClosing,
            ih others]
          rfl

theorem takes_list {spelled : List Char} (bracketed : Bracketed '[' ']' texts spelled)
    (each : List.Forall₂ (Takes element) texts values) :
    Takes (list (some element)) spelled values := by
  cases bracketed with
  | @empty blanks blank =>
      cases each
      refine ⟨⟨_, _, rfl, rfl, by decide⟩, fun text rest found _ => ?_⟩
      simp only [List.cons_append, List.append_assoc, List.nil_append] at found
      simp [list, found, firstElement, blank.skip_to (c := ']') rfl, bind, Except.bind, elementsFrom]
  | @filled _ inner separated =>
      refine ⟨⟨_, _, rfl, rfl, by decide⟩, fun text rest found _ => ?_⟩
      obtain ⟨c, tail, start, _, notClosing, _⟩ :=
        separated.starts (starts_of_takes each) (']' :: rest)
      simp only [List.cons_append, List.append_assoc, List.nil_append] at found
      simp only [list, found, firstElement_spelled start notClosing, bind, Except.bind]
      exact elementsFrom_separated separated each rest

end

/-- What the members of an object give, from what there is before them. -/
inductive Gathers (field : Member σ) : σ → List (String × List Char) → σ → Prop where
  | nil {state : σ} : Gathers field state [] state
  | cons {state next result : σ} {key : String} {value : List Char} {reader : Reader σ}
      {members : List (String × List Char)} : field state key = .ok reader →
      Takes reader value next → Gathers field next members result →
      Gathers field state ((key, value) :: members) result

theorem member_spelled {field : Member σ} {state next : σ} {key : String} {value : List Char}
    {reader : Reader σ} (known : field state key = .ok reader) (takes : Takes reader value next)
    {entry : List Char} (spells : SpellsMember (key, value) entry) {text rest : List Char}
    (found : entry ++ rest = '\"' :: text) (stops : Stops rest) :
    member field state text = .ok (next, rest) := by
  obtain ⟨_, ⟨pieces, each, rfl⟩, before, after, beforeBlank, afterBlank, rfl⟩ := spells
  simp only [quoted, List.cons_append, List.append_assoc, List.nil_append, List.cons.injEq,
    true_and] at found
  subst found
  simp only [member, readText_spelled each, String.ofList_toList, bind, Except.bind, known,
    skipColon_blanks beforeBlank]
  exact takes.behind afterBlank stops

theorem skipBlank_separated {members : List (String × List Char)} {entries : List (List Char)}
    {inner : List Char} (separated : Separated entries inner)
    (spelled : List.Forall₂ SpellsMember members entries) (rest : List Char) :
    ∃ tail, skipBlank (inner ++ rest) = '\"' :: tail := by
  cases separated with
  | last beforeBlank _ | more beforeBlank _ _ =>
      cases spelled with
      | cons spells _ =>
          obtain ⟨tail, rfl⟩ := SpellsMember.quote spells
          simp only [List.append_assoc, List.cons_append, beforeBlank.skip_to (c := '\"') rfl]
          exact ⟨_, rfl⟩

theorem nextMember_comma {blanks inner text : List Char} (blank : Blanks blanks)
    (found : skipBlank inner = '\"' :: text) :
    nextMember (blanks ++ ',' :: inner) = .ok (.another text) := by
  simp [nextMember, blank.skip_to (c := ',') rfl, found]

theorem nextMember_end {blanks : List Char} (blank : Blanks blanks) (rest : List Char) :
    nextMember (blanks ++ '}' :: rest) = .ok (.closed rest) := by
  simp [nextMember, blank.skip_to (c := '}') rfl]

section

variable {field : Member σ} {members : List (String × List Char)} {entries : List (List Char)}

theorem membersFrom_separated {start result : σ} {inner : List Char}
    (separated : Separated entries inner) (spelled : List.Forall₂ SpellsMember members entries)
    (gathers : Gathers field start members result) {text rest : List Char}
    (found : skipBlank (inner ++ '}' :: rest) = '\"' :: text) :
    membersFrom field start (.another text) = .ok (result, rest) := by
  -- The reader stands behind the quote that the next key starts with.
  induction separated generalizing members start text with
  | last beforeBlank afterBlank =>
      cases gathers with
      | nil => cases spelled
      | cons known takes gathersOthers =>
          cases spelled with
          | cons spells others =>
              cases others
              cases gathersOthers
              simp only [List.append_assoc, beforeBlank.skip, (SpellsMember.starts spells).skip]
                at found
              have first := member_spelled known takes spells found
                (afterBlank.stops '}' (by simp) rest)
              simp only [membersFrom, first, bind, Except.bind]
              rw [moreMembers_eq, nextMember_end afterBlank]
              rfl
  | @more before entry after entries inner beforeBlank afterBlank more ih =>
      cases gathers with
      | nil => cases spelled
      | cons known takes gathersOthers =>
          cases spelled with
          | cons spells others =>
              obtain ⟨tail, next⟩ := skipBlank_separated more others ('}' :: rest)
              simp only [List.append_assoc, List.cons_append, beforeBlank.skip,
                (SpellsMember.starts spells).skip] at found
              have first := member_spelled known takes spells found (afterBlank.stops ',' (by simp) _)
              simp only [membersFrom, first, bind, Except.bind]
              rw [moreMembers_eq, nextMember_comma afterBlank next]
              exact ih others gathersOthers next

theorem members_run {start result : σ} {finish : σ → Except ReadError α} {value : α}
    {spelled : List Char} (bracketed : Bracketed '{' '}' entries spelled)
    (each : List.Forall₂ SpellsMember members entries)
    (gathers : Gathers field start members result) (finished : finish result = .ok value) :
    ∃ tail, spelled = '{' :: tail ∧
      ∀ rest, (Reader.members field start finish).run (tail ++ rest) = .ok (value, rest) := by
  cases bracketed with
  | empty blank =>
      cases each
      cases gathers
      refine ⟨_, rfl, fun rest => ?_⟩
      simp [Reader.members, firstMember, blank.skip_to (c := '}') rfl, bind, Except.bind,
        membersFrom, finished, pure, Except.pure]
  | filled separated =>
      refine ⟨_, rfl, fun rest => ?_⟩
      obtain ⟨tail, found⟩ := skipBlank_separated separated each ('}' :: rest)
      simp [Reader.members, firstMember, found, bind, Except.bind,
        membersFrom_separated separated each gathers found, finished, pure, Except.pure]

end

end Reader

end Pipelines.Exchange
