import Pipelines.Proofs.Exchange.RoundTrip
import Pipelines.Proofs.Exchange.Stable.Token

namespace Pipelines.Exchange

/-!
# Reading a text that goes on

A reader that gives a value gives the same one if the text goes on, and leaves
what comes on top behind. This holds of trees, lists and records, because they
end with a quote or a bracket of their own. A value that is passed over may be a
number, but inside brackets something always follows it.
-/

/-- What comes next, when the text goes on. -/
def Next.before (more : List Char) : Next → Next
  | .closed rest => .closed (rest ++ more)
  | .another start => .another (start ++ more)

namespace Reader

/-- What a reader gives stays the same when the text goes on. -/
structure Stable (reader : Reader α) : Prop where
  append : ∀ {text value rest}, reader.run text = .ok (value, rest) →
    ∀ more, reader.run (text ++ more) = .ok (value, rest ++ more)

/-- What a reader gives in front of something else stays the same when the text goes on. -/
structure StableInside (reader : Reader α) : Prop where
  append : ∀ {text value rest}, reader.run text = .ok (value, rest) → rest ≠ [] →
    ∀ more, reader.run (text ++ more) = .ok (value, rest ++ more)

variable {reader : Reader α}

theorem Stable.inside (stable : Stable reader) : StableInside reader :=
  ⟨fun read _ => stable.append read⟩

theorem Stable.map (stable : Stable reader) (f : α → β) : Stable (reader.map f) := by
  refine ⟨fun read more => ?_⟩
  obtain ⟨⟨value, after⟩, first, built⟩ := bind_eq_ok.mp read
  cases built
  exact bind_eq_ok.mpr ⟨_, stable.append first more, rfl⟩

theorem StableInside.map (stable : StableInside reader) (f : α → β) :
    StableInside (reader.map f) := by
  refine ⟨fun read some more => ?_⟩
  obtain ⟨⟨value, after⟩, first, built⟩ := bind_eq_ok.mp read
  cases built
  exact bind_eq_ok.mpr ⟨_, stable.append first some more, rfl⟩

theorem Stable.delay (stable : Stable reader) : Stable (.delay fun _ => reader) :=
  ⟨stable.append⟩

theorem stable_text : Stable text := by
  refine ⟨fun read more => ?_⟩
  simp only [text] at read
  split at read
  · cases read
  · rename_i token
    obtain ⟨⟨value, after⟩, first, built⟩ := bind_eq_ok.mp read
    cases built
    simp only [text, skipBlank_append token more]
    exact bind_eq_ok.mpr ⟨_, readText_append first more, rfl⟩
  · cases read

theorem stable_unit : Stable unit := by
  refine ⟨fun read more => ?_⟩
  simp only [unit] at read
  split at read
  · cases read
  · rename_i token
    obtain ⟨after, first, built⟩ := bind_eq_ok.mp read
    cases built
    simp only [unit, skipBlank_append token more]
    exact bind_eq_ok.mpr ⟨_, skipWord_append first more, rfl⟩
  · cases read

theorem stableInside_skip : StableInside skip := by
  refine ⟨fun read some more => ?_⟩
  obtain ⟨after, skipped, built⟩ := bind_eq_ok.mp read
  cases built
  exact bind_eq_ok.mpr ⟨_, (skip_append more).1 _ _ _ skipped some, rfl⟩

theorem firstElement_append {text : List Char} {next : Next} (found : firstElement text = .ok next)
    (more : List Char) : firstElement (text ++ more) = .ok (next.before more) := by
  unfold firstElement at found
  split at found
  · cases found
  · rename_i token
    cases found
    rw [firstElement, skipBlank_append token more]
    rfl
  · rename_i some notClosing
    cases found
    cases token : skipBlank text with
    | nil => exact absurd token some
    | cons c tail =>
        have other : c ≠ ']' := fun same => notClosing tail (same ▸ token)
        simp [firstElement, skipBlank_append token more, other, Next.before]

theorem nextElement_append {text : List Char} {next : Next} (found : nextElement text = .ok next)
    (more : List Char) : nextElement (text ++ more) = .ok (next.before more) := by
  unfold nextElement at found
  split at found
  · cases found
  · rename_i token
    cases found
    rw [nextElement, skipBlank_append token more]
    rfl
  · rename_i rest token
    split at found
    · cases found
    · cases found
    · rename_i some notClosing
      cases found
      cases inner : skipBlank rest with
      | nil => exact absurd inner some
      | cons c tail =>
          have other : c ≠ ']' := fun same => notClosing tail (same ▸ inner)
          simp [nextElement, skipBlank_append token more, skipBlank_append inner more, other,
            Next.before]
  · cases found

section

variable (stable : StableInside reader)
include stable

theorem moreElements_append {text rest : List Char} {values : List α}
    (read : reader.moreElements text = .ok (values, rest)) (more : List Char) :
    reader.moreElements (text ++ more) = .ok (values, rest ++ more) := by
  fun_induction reader.moreElements text generalizing values rest with
  | case1 => cases read
  | case2 text after next =>
      cases read
      rw [moreElements_eq, nextElement_append next more]
      rfl
  | case3 => cases read
  | case4 text start next value after first ih =>
      obtain ⟨⟨others, remaining⟩, othersRead, built⟩ := bind_eq_ok.mp read
      cases built
      have behind : after ≠ [] := ne_nil_of_length_lt (length_moreElements othersRead)
      rw [moreElements_eq]
      exact bind_eq_ok.mpr ⟨_, nextElement_append next more, bind_eq_ok.mpr ⟨_,
        stable.append first behind more, bind_eq_ok.mpr ⟨_, ih othersRead, rfl⟩⟩⟩

theorem elementsFrom_append {next : Next} {rest : List Char} {values : List α}
    (read : reader.elementsFrom next = .ok (values, rest)) (more : List Char) :
    reader.elementsFrom (next.before more) = .ok (values, rest ++ more) := by
  cases next with
  | closed after => cases read; rfl
  | another start =>
      obtain ⟨⟨value, after⟩, first, others⟩ := bind_eq_ok.mp read
      obtain ⟨⟨following, remaining⟩, othersRead, built⟩ := bind_eq_ok.mp others
      cases built
      have behind : after ≠ [] := ne_nil_of_length_lt (length_moreElements othersRead)
      exact bind_eq_ok.mpr ⟨_, stable.append first behind more,
        bind_eq_ok.mpr ⟨_, moreElements_append stable othersRead more, rfl⟩⟩

theorem stable_list : Stable (list (some reader)) := by
  refine ⟨fun read more => ?_⟩
  simp only [list] at read
  split at read
  · cases read
  · contradiction
  · rename_i token found
    cases found
    obtain ⟨next, first, elements⟩ := bind_eq_ok.mp read
    simp only [list, skipBlank_append token more]
    exact bind_eq_ok.mpr ⟨_, firstElement_append first more,
      elementsFrom_append stable elements more⟩
  · cases read

end

theorem stable_list_none : Stable (list (none : Option (Reader α))) := by
  refine ⟨fun read => ?_⟩
  simp only [list] at read
  split at read <;> first | cases read | contradiction

theorem firstMember_append {text : List Char} {next : Next} (found : firstMember text = .ok next)
    (more : List Char) : firstMember (text ++ more) = .ok (next.before more) := by
  unfold firstMember at found
  split at found
  · cases found
  · rename_i token
    cases found
    rw [firstMember, skipBlank_append token more]
    rfl
  · rename_i token
    cases found
    rw [firstMember, skipBlank_append token more]
    rfl
  · cases found

theorem nextMember_append {text : List Char} {next : Next} (found : nextMember text = .ok next)
    (more : List Char) : nextMember (text ++ more) = .ok (next.before more) := by
  unfold nextMember at found
  split at found
  · cases found
  · rename_i token
    cases found
    rw [nextMember, skipBlank_append token more]
    rfl
  · rename_i token
    split at found
    · cases found
    · cases found
    · rename_i inner
      cases found
      simp [nextMember, skipBlank_append token more, skipBlank_append inner more, Next.before]
    · cases found
  · cases found

section

variable {field : Member σ}
  (stable : ∀ {state key value}, field state key = .ok value → StableInside value)
include stable

theorem member_append {state result : σ} {text rest : List Char}
    (read : member field state text = .ok (result, rest)) (some : rest ≠ []) (more : List Char) :
    member field state (text ++ more) = .ok (result, rest ++ more) := by
  obtain ⟨⟨key, afterKey⟩, keyRead, atKey⟩ := bind_eq_ok.mp read
  obtain ⟨value, known, atColon⟩ := bind_eq_ok.mp atKey
  obtain ⟨_, colonRead, valueRead⟩ := bind_eq_ok.mp atColon
  exact bind_eq_ok.mpr ⟨_, readText_append keyRead more, bind_eq_ok.mpr ⟨_, known,
    bind_eq_ok.mpr ⟨_, skipColon_append colonRead more, (stable known).append valueRead some more⟩⟩⟩

theorem moreMembers_append {state result : σ} {text rest : List Char}
    (read : moreMembers field state text = .ok (result, rest)) (more : List Char) :
    moreMembers field state (text ++ more) = .ok (result, rest ++ more) := by
  fun_induction moreMembers field state text with
  | case1 => cases read
  | case2 state text after next =>
      cases read
      rw [moreMembers_eq, nextMember_append next more]
      rfl
  | case3 => cases read
  | case4 state text start next following after first ih =>
      have behind : after ≠ [] := ne_nil_of_length_lt (length_moreMembers read)
      rw [moreMembers_eq]
      exact bind_eq_ok.mpr ⟨_, nextMember_append next more, bind_eq_ok.mpr ⟨_,
        member_append stable first behind more, ih read⟩⟩

theorem stable_members {start : σ} {finish : σ → Except ReadError α} :
    Stable (members field start finish) := by
  refine ⟨fun read more => ?_⟩
  obtain ⟨next, first, continued⟩ := bind_eq_ok.mp read
  obtain ⟨⟨state, after⟩, membersRead, made⟩ := bind_eq_ok.mp continued
  obtain ⟨value, done, built⟩ := bind_eq_ok.mp made
  cases built
  refine bind_eq_ok.mpr ⟨_, firstMember_append first more, bind_eq_ok.mpr ⟨(state, _), ?_,
    bind_eq_ok.mpr ⟨_, done, rfl⟩⟩⟩
  cases next with
  | closed rest => cases membersRead; rfl
  | another start =>
      obtain ⟨⟨following, middle⟩, first, others⟩ := bind_eq_ok.mp membersRead
      have behind : middle ≠ [] := ne_nil_of_length_lt (length_moreMembers others)
      exact bind_eq_ok.mpr ⟨_, member_append stable first behind more,
        moreMembers_append stable others more⟩

end

theorem stable_record {name : String} {array object : Reader α} (inArray : Stable array)
    (inObject : Stable object) : Stable (record name (some (array, object))) := by
  refine ⟨fun read more => ?_⟩
  simp only [record] at read
  split at read
  · cases read
  · contradiction
  · contradiction
  · rename_i token found
    cases found
    simpa only [record, skipBlank_append token more] using inArray.append read more
  · rename_i token found
    cases found
    simpa only [record, skipBlank_append token more] using inObject.append read more
  · cases read

theorem stable_record_none (name : String) :
    Stable (record name (none : Option (Reader α × Reader α))) := by
  refine ⟨fun read => ?_⟩
  simp only [record] at read
  split at read <;> first | cases read | contradiction

theorem field_append {value : Reader α} {tooShort : ReadError} {next : Next} {result : α}
    {rest : List Char} (stable : StableInside value)
    (read : field value tooShort next = .ok (result, rest)) (some : rest ≠ []) (more : List Char) :
    field value tooShort (next.before more) = .ok (result, rest ++ more) := by
  cases next with
  | closed after => cases read
  | another start => exact stable.append read some more

theorem endFields_append {text rest : List Char} (ended : endFields text = .ok rest)
    (more : List Char) : endFields (text ++ more) = .ok (rest ++ more) := by
  unfold endFields at ended
  split at ended
  · cases ended
  · rename_i token
    cases ended
    rw [endFields, skipBlank_append token more]
    rfl
  · split at ended <;> cases ended
  · cases ended

theorem stable_record1 {name : String} (first : Field α) (stable : StableInside first.value) :
    Stable (record1 name (some first)) := by
  refine stable_record ⟨fun read more => ?array⟩ (stable_members fun known => ?object)
  case array =>
    obtain ⟨next, found, continued⟩ := bind_eq_ok.mp read
    obtain ⟨⟨value, after⟩, valueRead, ending⟩ := bind_eq_ok.mp continued
    obtain ⟨last, ended, built⟩ := bind_eq_ok.mp ending
    cases built
    have behind : after ≠ [] := ne_nil_of_length_lt (length_endFields ended)
    exact bind_eq_ok.mpr ⟨_, firstElement_append found more, bind_eq_ok.mpr ⟨_,
      field_append stable valueRead behind more,
      bind_eq_ok.mpr ⟨_, endFields_append ended more, rfl⟩⟩⟩
  case object =>
    rename_i state key reader
    split at known
    · cases state <;> cases known
      exact stable.map _
    · cases known
      exact stableInside_skip.map _

theorem stable_record2 {name : String} (first : Field α) (second : Field β)
    (stable : StableInside first.value) (stableOther : StableInside second.value) :
    Stable (record2 name (some (first, second))) := by
  refine stable_record ⟨fun read more => ?array⟩ (stable_members fun known => ?object)
  case array =>
    obtain ⟨next, found, continued⟩ := bind_eq_ok.mp read
    obtain ⟨⟨value, after⟩, valueRead, further⟩ := bind_eq_ok.mp continued
    obtain ⟨nextAgain, foundAgain, continuedAgain⟩ := bind_eq_ok.mp further
    obtain ⟨⟨other, afterAgain⟩, otherRead, ending⟩ := bind_eq_ok.mp continuedAgain
    obtain ⟨last, ended, built⟩ := bind_eq_ok.mp ending
    cases built
    have behind : after ≠ [] := ne_nil_of_length_lt (length_nextElement foundAgain)
    have behindOther : afterAgain ≠ [] := ne_nil_of_length_lt (length_endFields ended)
    exact bind_eq_ok.mpr ⟨_, firstElement_append found more, bind_eq_ok.mpr ⟨_,
      field_append stable valueRead behind more, bind_eq_ok.mpr ⟨_,
        nextElement_append foundAgain more, bind_eq_ok.mpr ⟨_,
          field_append stableOther otherRead behindOther more,
          bind_eq_ok.mpr ⟨_, endFields_append ended more, rfl⟩⟩⟩⟩⟩
  case object =>
    rename_i state key reader
    obtain ⟨value?, other?⟩ := state
    dsimp only at known
    split at known
    · cases value? <;> cases known
      exact stable.map _
    · split at known
      · cases other? <;> cases known
        exact stableOther.map _
      · cases known
        exact stableInside_skip.map _

theorem readVariant_append {known : List (String × ν)} {text rest : List Char} {form : ν}
    (read : readVariant known text = .ok (form, rest)) (more : List Char) :
    readVariant known (text ++ more) = .ok (form, rest ++ more) := by
  obtain ⟨⟨name, after⟩, nameRead, found⟩ := bind_eq_ok.mp read
  refine bind_eq_ok.mpr ⟨_, readText_append nameRead more, ?_⟩
  dsimp only at found ⊢
  split at found
  · cases found
    rfl
  · cases found

theorem endVariant_append {text rest : List Char} (ended : endVariant text = .ok rest)
    (more : List Char) : endVariant (text ++ more) = .ok (rest ++ more) := by
  unfold endVariant at ended
  split at ended
  · cases ended
  · rename_i token
    cases ended
    rw [endVariant, skipBlank_append token more]
    rfl
  · cases ended

theorem stable_variant {known : List (String × ν)} {bare : ν → Except ReadError α}
    {contents : Option (ν → Reader α)}
    (stable : ∀ {inside}, contents = some inside → ∀ form, StableInside (inside form)) :
    Stable (variant known bare contents) := by
  refine ⟨fun read more => ?_⟩
  simp only [variant] at read
  split at read
  · cases read
  · rename_i token
    obtain ⟨⟨form, after⟩, nameRead, atValue⟩ := bind_eq_ok.mp read
    obtain ⟨value, accepted, built⟩ := bind_eq_ok.mp atValue
    cases built
    simp only [variant, skipBlank_append token more]
    exact bind_eq_ok.mpr ⟨_, readVariant_append nameRead more, bind_eq_ok.mpr ⟨_, accepted, rfl⟩⟩
  · cases read
  · rename_i token
    obtain ⟨next, found, member⟩ := bind_eq_ok.mp read
    simp only [variant, skipBlank_append token more]
    refine bind_eq_ok.mpr ⟨_, firstMember_append found more, ?_⟩
    cases next with
    | closed => cases member
    | another start =>
        obtain ⟨⟨form, afterName⟩, nameRead, atColon⟩ := bind_eq_ok.mp member
        obtain ⟨afterColon, colonRead, atValue⟩ := bind_eq_ok.mp atColon
        obtain ⟨⟨value, afterValue⟩, valueRead, atEnd⟩ := bind_eq_ok.mp atValue
        obtain ⟨last, ended, built⟩ := bind_eq_ok.mp atEnd
        cases built
        have behind : afterValue ≠ [] := ne_nil_of_length_lt (length_endVariant ended)
        exact bind_eq_ok.mpr ⟨_, readVariant_append nameRead more, bind_eq_ok.mpr ⟨_,
          skipColon_append colonRead more, bind_eq_ok.mpr ⟨_,
            (stable rfl form).append valueRead behind more,
            bind_eq_ok.mpr ⟨_, endVariant_append ended more, rfl⟩⟩⟩⟩
  · cases read

theorem stable_contents_none (form : Form) : Stable (contents none form) := by
  cases form with
  | hole => exact stable_unit.map fun _ => Expr.hole
  | name | block | raw => exact (stable_record_none _).map _
  | call | assign | marked =>
      rw [contents, record2]
      exact (stable_record_none _).map _

theorem stable_contents {room : Nat} (inExpr : Stable (inside room).expr)
    (inExprs : Stable (inside room).exprs) (inTag : Stable (inside room).tag) (form : Form) :
    Stable (contents (some (inside room)) form) := by
  cases form with
  | hole => exact stable_unit.map fun _ => Expr.hole
  | name => exact (stable_record1 ⟨"name", text⟩ stable_text.inside).map _
  | raw => exact (stable_record1 ⟨"payload", text⟩ stable_text.inside).map _
  | block => exact (stable_record1 ⟨"lines", _⟩ inExprs.inside).map _
  | call =>
      exact (stable_record2 ⟨"callee", _⟩ ⟨"args", _⟩ inExpr.inside inExprs.inside).map
        fun both => Expr.call both.1 both.2
  | assign =>
      exact (stable_record2 ⟨"target", _⟩ ⟨"value", _⟩ inExpr.inside inExpr.inside).map
        fun both => Expr.assign both.1 both.2
  | marked =>
      exact (stable_record2 ⟨"tag", _⟩ ⟨"inner", _⟩ inTag.inside inExpr.inside).map
        fun both => Expr.marked both.1 both.2

theorem stable_tag (content : Option (Reader Unit)) (stable : ∀ inside ∈ content, Stable inside) :
    Stable (tag content) := by
  refine stable_variant fun found form => ?_
  obtain ⟨inside, among, rfl⟩ := Option.map_eq_some_iff.mp found
  exact ((stable inside among).map _).inside

/-- A tree that has been read stays the same when the text goes on. -/
theorem stable_expr (room : Nat) : Stable (expr room) := by
  induction room using Nat.strongRecOn with
  | _ room ih =>
      match room with
      | 0 => exact stable_variant fun found => nomatch found
      | 1 =>
          refine stable_variant fun found form => ?_
          cases found
          exact (stable_contents_none form).inside
      | room + 2 =>
          -- A variant and the record in it take one level of room each.
          have inExpr : Stable (inside room).expr := (ih room (by omega)).delay
          have inExprs : Stable (inside room).exprs := by
            cases room with
            | zero => exact stable_list_none
            | succ room => exact stable_list (ih room (by omega)).delay.inside
          have inTag : Stable (inside room).tag := by
            cases room with
            | zero => exact stable_tag none nofun
            | succ room =>
                exact stable_tag (some unit) fun _ same => Option.some.inj same ▸ stable_unit
          rw [expr_add_two]
          refine stable_variant fun found form => ?_
          cases found
          exact (stable_contents inExpr inExprs inTag form).inside

end Reader

theorem readTree_eq_ok_iff {text : List Char} {e : Expr} :
    readTree text = .ok e ↔
      ∃ rest, (Reader.expr nestingLimit).run text = .ok (e, rest) ∧ skipBlank rest = [] := by
  simp only [readTree, bind_eq_ok, Prod.exists]
  constructor
  · intro parts
    obtain ⟨value, rest, read, ended⟩ := parts
    split at ended
    · rename_i blank
      cases ended
      exact ⟨rest, read, List.isEmpty_iff.mp blank⟩
    · cases ended
  · intro parts
    obtain ⟨rest, read, blank⟩ := parts
    exact ⟨e, rest, read, by rw [blank]; rfl⟩

end Pipelines.Exchange
