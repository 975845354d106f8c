import Pipelines.Proofs.Exchange.RoundTrip

namespace Pipelines

/-!
# A loaded tree is no deeper than its text

However a tree is spelled, every bracket of its written form is also one of the
text that it was read from, so a reader that has room for a number of brackets
gives no tree that needs more. Loading therefore normalises: what has been
loaded can be written and loaded again.
-/

theorem Expr.nestingOf_le {es : List Expr} {room : Nat} :
    Expr.nestingOf es ≤ room ↔ ∀ e ∈ es, e.nesting ≤ room := by
  induction es with
  | nil => simp [Expr.nestingOf]
  | cons e es ih => rw [Expr.nestingOf, Nat.max_le, ih, List.forall_mem_cons]

namespace Exchange

namespace Reader

/-- Whatever a reader gives has a property. -/
structure Gives (reader : Reader α) (P : α → Prop) : Prop where
  of_run : ∀ {text value rest}, reader.run text = .ok (value, rest) → P value

variable {reader : Reader α} {P : α → Prop}

theorem Gives.map {Q : β → Prop} (given : Gives reader P) (f : α → β)
    (kept : ∀ value, P value → Q (f value)) : Gives (reader.map f) Q := by
  refine ⟨fun read => ?_⟩
  obtain ⟨⟨value, after⟩, first, built⟩ := bind_eq_ok.mp read
  cases built
  exact kept value (given.of_run first)

theorem gives_any (reader : Reader α) : Gives reader fun _ => True :=
  ⟨fun _ => trivial⟩

theorem Gives.moreElements (given : Gives reader P) {text rest : List Char} {values : List α}
    (read : reader.moreElements text = .ok (values, rest)) : ∀ value ∈ values, P value := by
  fun_induction reader.moreElements text generalizing values rest with
  | case1 => cases read
  | case2 => cases read; simp
  | case3 => cases read
  | case4 text start next value after first ih =>
      obtain ⟨⟨others, remaining⟩, othersRead, built⟩ := bind_eq_ok.mp read
      cases built
      exact List.forall_mem_cons.mpr ⟨given.of_run first, ih othersRead⟩

theorem Gives.list (given : Gives reader P) :
    Gives (list (some reader)) fun values => ∀ value ∈ values, P value := by
  refine ⟨fun read => ?_⟩
  simp only [Reader.list] at read
  split at read
  · cases read
  · contradiction
  · rename_i found
    cases found
    obtain ⟨next, _, elements⟩ := bind_eq_ok.mp read
    cases next with
    | closed after => cases elements; simp
    | another start =>
        obtain ⟨⟨value, after⟩, first, others⟩ := bind_eq_ok.mp elements
        obtain ⟨⟨following, remaining⟩, othersRead, built⟩ := bind_eq_ok.mp others
        cases built
        exact List.forall_mem_cons.mpr ⟨given.of_run first, given.moreElements othersRead⟩
  · cases read

theorem gives_list_none (P : List α → Prop) : Gives (list (none : Option (Reader α))) P := by
  refine ⟨fun read => ?_⟩
  simp only [list] at read
  split at read <;> first | cases read | contradiction

section

variable {field : Member σ} {I : σ → Prop}
  (kept : ∀ {state key value}, I state → field state key = .ok value → Gives value I)
include kept

theorem member_keeps {state result : σ} {text rest : List Char}
    (read : member field state text = .ok (result, rest)) (held : I state) : I result := by
  obtain ⟨⟨key, afterKey⟩, _, atKey⟩ := bind_eq_ok.mp read
  obtain ⟨value, known, atColon⟩ := bind_eq_ok.mp atKey
  obtain ⟨_, _, valueRead⟩ := bind_eq_ok.mp atColon
  exact (kept held known).of_run valueRead

/-- What holds before the first member and is kept by each holds after the last. -/
theorem moreMembers_keeps {state result : σ} {text rest : List Char}
    (read : moreMembers field state text = .ok (result, rest)) (held : I state) : I result := by
  fun_induction moreMembers field state text with
  | case1 => cases read
  | case2 => cases read; exact held
  | case3 => cases read
  | case4 state text start next following after first ih =>
      exact ih read (member_keeps kept first held)

theorem gives_members {start : σ} {finish : σ → Except ReadError α} (held : I start)
    (finished : ∀ {state value}, I state → finish state = .ok value → P value) :
    Gives (members field start finish) P := by
  refine ⟨fun read => ?_⟩
  obtain ⟨next, _, continued⟩ := bind_eq_ok.mp read
  obtain ⟨⟨state, after⟩, membersRead, made⟩ := bind_eq_ok.mp continued
  obtain ⟨value, done, built⟩ := bind_eq_ok.mp made
  cases built
  refine finished ?_ done
  cases next with
  | closed rest => cases membersRead; exact held
  | another start =>
      obtain ⟨⟨following, after⟩, first, others⟩ := bind_eq_ok.mp membersRead
      exact moreMembers_keeps kept others (member_keeps kept first held)

end

theorem gives_record {name : String} {array object : Reader α} (inArray : Gives array P)
    (inObject : Gives object P) : Gives (record name (some (array, object))) P := by
  refine ⟨fun read => ?_⟩
  simp only [record] at read
  split at read
  · cases read
  · contradiction
  · contradiction
  · rename_i found
    cases found
    exact inArray.of_run read
  · rename_i found
    cases found
    exact inObject.of_run read
  · cases read

theorem gives_record_none (name : String) (P : α → Prop) : Gives (record name none) P := by
  refine ⟨fun read => ?_⟩
  simp only [record] at read
  split at read <;> first | cases read | contradiction

theorem gives_field {value : Reader α} {tooShort : ReadError} {next : Next} {result : α}
    {rest : List Char} (given : Gives value P)
    (read : field value tooShort next = .ok (result, rest)) : P result := by
  cases next with
  | closed after => cases read
  | another start => exact given.of_run read

theorem gives_record1 {name : String} {first : Field α} (given : Gives first.value P) :
    Gives (record1 name (some first)) P := by
  refine gives_record ⟨fun read => ?array⟩ ?object
  case array =>
    obtain ⟨next, _, continued⟩ := bind_eq_ok.mp read
    obtain ⟨⟨value, after⟩, valueRead, ending⟩ := bind_eq_ok.mp continued
    obtain ⟨last, _, built⟩ := bind_eq_ok.mp ending
    cases built
    exact gives_field given valueRead
  case object =>
    -- A member of another name leaves what has been read of the field as it is.
    refine gives_members (I := fun state => ∀ value ∈ state, P value) (fun held known => ?kept)
      (fun _ absent => nomatch absent) fun {state value} held done => ?finished
    case kept =>
      rename_i state key reader
      split at known
      · cases state <;> cases known
        exact given.map _ fun value found _ here => by cases here; exact found
      · cases known
        exact (gives_any skip).map _ fun _ _ => held
    case finished =>
      cases state <;> cases done
      exact held _ rfl

theorem gives_record2 {name : String} {first : Field α} {second : Field β} {Q : β → Prop}
    (given : Gives first.value P) (givenOther : Gives second.value Q) :
    Gives (record2 name (some (first, second))) fun both => P both.1 ∧ Q both.2 := by
  refine gives_record ⟨fun read => ?array⟩ ?object
  case array =>
    obtain ⟨next, _, continued⟩ := bind_eq_ok.mp read
    obtain ⟨⟨value, after⟩, valueRead, further⟩ := bind_eq_ok.mp continued
    obtain ⟨nextAgain, _, continuedAgain⟩ := bind_eq_ok.mp further
    obtain ⟨⟨other, afterAgain⟩, otherRead, ending⟩ := bind_eq_ok.mp continuedAgain
    obtain ⟨last, _, built⟩ := bind_eq_ok.mp ending
    cases built
    exact ⟨gives_field given valueRead, gives_field givenOther otherRead⟩
  case object =>
    refine gives_members
      (I := fun state => (∀ value ∈ state.1, P value) ∧ ∀ other ∈ state.2, Q other)
      (fun held known => ?kept) ⟨fun _ absent => (nomatch absent), fun _ absent => (nomatch absent)⟩
      fun {state value} held done => ?finished
    case kept =>
      rename_i state key reader
      obtain ⟨value?, other?⟩ := state
      dsimp only at known
      split at known
      · cases value? <;> cases known
        exact given.map _ fun value found => ⟨fun _ here => by cases here; exact found, held.2⟩
      · split at known
        · cases other? <;> cases known
          exact givenOther.map _ fun other found =>
            ⟨held.1, fun _ here => by cases here; exact found⟩
        · cases known
          exact (gives_any skip).map _ fun _ _ => held
    case finished =>
      obtain ⟨value?, other?⟩ := state
      obtain ⟨value, one, further⟩ := bind_eq_ok.mp done
      obtain ⟨other, two, built⟩ := bind_eq_ok.mp further
      cases built
      cases value? <;> cases one
      cases other? <;> cases two
      exact ⟨held.1 _ rfl, held.2 _ rfl⟩

theorem gives_variant {known : List (String × ν)} {bare : ν → Except ReadError α}
    {contents : Option (ν → Reader α)}
    (bareGiven : ∀ {form value}, bare form = .ok value → P value)
    (contentsGiven : ∀ {inside}, contents = some inside → ∀ form, Gives (inside form) P) :
    Gives (variant known bare contents) P := by
  refine ⟨fun read => ?_⟩
  simp only [variant] at read
  split at read
  · cases read
  · obtain ⟨⟨form, after⟩, _, atValue⟩ := bind_eq_ok.mp read
    obtain ⟨value, accepted, built⟩ := bind_eq_ok.mp atValue
    cases built
    exact bareGiven accepted
  · cases read
  · obtain ⟨next, _, member⟩ := bind_eq_ok.mp read
    cases next with
    | closed => cases member
    | another start =>
        obtain ⟨⟨form, _⟩, _, atColon⟩ := bind_eq_ok.mp member
        obtain ⟨_, _, atValue⟩ := bind_eq_ok.mp atColon
        obtain ⟨⟨value, _⟩, valueRead, atEnd⟩ := bind_eq_ok.mp atValue
        obtain ⟨_, _, built⟩ := bind_eq_ok.mp atEnd
        cases built
        exact (contentsGiven rfl form).of_run valueRead
  · cases read

theorem nesting_of_bareForm {form : Form} {e : Expr} (accepted : bareForm form = .ok e) :
    e.nesting = 0 := by
  cases form <;> cases accepted
  rfl

theorem gives_contents_none (form : Form) : Gives (contents none form) fun e => e.nesting = 0 := by
  cases form with
  | hole => exact (gives_any unit).map (fun _ => Expr.hole) fun _ _ => rfl
  | name | block | raw => exact (gives_record_none _ fun _ => False).map _ fun _ => False.elim
  | call | assign | marked =>
      rw [contents, record2]
      exact (gives_record_none _ fun _ => False).map _ fun _ => False.elim

theorem gives_contents {room : Nat} (inExpr : Gives (inside room).expr fun e => e.nesting ≤ room)
    (inExprs : Gives (inside room).exprs fun es => Expr.nestingOf es + 1 ≤ room) (form : Form) :
    Gives (contents (some (inside room)) form) fun e => e.nesting ≤ room + 2 := by
  cases form with
  | hole => exact (gives_any unit).map (fun _ => Expr.hole) fun _ _ => Nat.zero_le _
  | name =>
      have field : Gives (record1 "Ident" (some ⟨"name", text⟩)) fun _ => True :=
        gives_record1 (gives_any text)
      exact field.map Expr.name fun _ _ => by simp [Expr.nesting]
  | raw =>
      have field : Gives (record1 "NodeOpaque" (some ⟨"payload", text⟩)) fun _ => True :=
        gives_record1 (gives_any text)
      exact field.map Expr.raw fun _ _ => by simp [Expr.nesting]
  | block =>
      have field : Gives (record1 "NodeGroup" (some ⟨"lines", (inside room).exprs⟩))
          fun lines => Expr.nestingOf lines + 1 ≤ room := gives_record1 inExprs
      refine field.map Expr.block fun lines fit => ?_
      simp only [Expr.nesting]
      omega
  | call =>
      have fields : Gives (record2 "NodeCall"
          (some (⟨"callee", (inside room).expr⟩, ⟨"args", (inside room).exprs⟩)))
          fun both => both.1.nesting ≤ room ∧ Expr.nestingOf both.2 + 1 ≤ room :=
        gives_record2 (P := fun callee : Expr => callee.nesting ≤ room)
          (Q := fun args => Expr.nestingOf args + 1 ≤ room) inExpr inExprs
      refine fields.map (fun both => Expr.call both.1 both.2) fun both fit => ?_
      simp only [Expr.nesting]
      omega
  | assign =>
      have fields : Gives (record2 "NodeAssign"
          (some (⟨"target", (inside room).expr⟩, ⟨"value", (inside room).expr⟩)))
          fun both => both.1.nesting ≤ room ∧ both.2.nesting ≤ room :=
        gives_record2 (P := fun target : Expr => target.nesting ≤ room)
          (Q := fun value : Expr => value.nesting ≤ room) inExpr inExpr
      refine fields.map (fun both => Expr.assign both.1 both.2) fun both fit => ?_
      simp only [Expr.nesting]
      omega
  | marked =>
      have fields : Gives (record2 "NodeMarker"
          (some (⟨"tag", (inside room).tag⟩, ⟨"inner", (inside room).expr⟩)))
          fun both => True ∧ both.2.nesting ≤ room :=
        gives_record2 (P := fun _ => True) (Q := fun inner : Expr => inner.nesting ≤ room)
          (gives_any _) inExpr
      refine fields.map (fun both => Expr.marked both.1 both.2) fun both fit => ?_
      simp only [Expr.nesting]
      omega

/-- A reader that has room for a number of brackets gives no tree that needs more. -/
theorem gives_expr (room : Nat) : Gives (expr room) fun e => e.nesting ≤ room := by
  induction room using Nat.strongRecOn with
  | _ room ih =>
      have bare : ∀ {form e}, bareForm form = .ok e → e.nesting ≤ room := fun accepted =>
        nesting_of_bareForm accepted ▸ Nat.zero_le room
      -- The two brackets of a variant and its record leave two less, and a list one more less.
      match room with
      | 0 => exact gives_variant bare fun found => nomatch found
      | 1 =>
          refine gives_variant bare fun found form => ?_
          cases found
          exact ⟨fun read => (gives_contents_none form).of_run read ▸ Nat.zero_le 1⟩
      | room + 2 =>
          have inExpr : Gives (inside room).expr fun e => e.nesting ≤ room :=
            ⟨(ih room (by omega)).of_run⟩
          have inExprs : Gives (inside room).exprs fun es => Expr.nestingOf es + 1 ≤ room := by
            cases room with
            | zero => exact gives_list_none _
            | succ room =>
                have element : Gives (.delay fun _ => expr room) fun e => e.nesting ≤ room :=
                  ⟨(ih room (by omega)).of_run⟩
                exact ⟨fun read => Nat.succ_le_succ (Expr.nestingOf_le.mpr (element.list.of_run read))⟩
          rw [expr_add_two]
          refine gives_variant bare fun found form => ?_
          cases found
          exact gives_contents inExpr inExprs form

end Reader

theorem nesting_le_of_load {text : String} {e : Expr} (loaded : load text = .ok e) :
    e.nesting ≤ 127 := by
  unfold load at loaded
  split at loaded
  · rename_i read
    cases loaded
    obtain ⟨⟨e, rest⟩, read, ending⟩ := bind_eq_ok.mp read
    dsimp only at ending
    split at ending
    · cases ending
      exact (Reader.gives_expr nestingLimit).of_run read
    · cases ending
  · cases loaded

theorem load_eq_ok_iff_nesting_le {e : Expr} : load (writeTree e) = .ok e ↔ e.nesting ≤ 127 := by
  rw [load, writeTree, String.toList_ofList, readTree_written, fits, nestingLimit]
  by_cases shallow : e.nesting ≤ 127
  · simp [shallow]
  · simp [shallow]

/-- Whatever text a tree is loaded from, its written form is not too deep and loads back. -/
theorem load_writeTree_of_load {text : String} {e : Expr} (loaded : load text = .ok e) :
    e.nesting ≤ 127 ∧ load (writeTree e) = .ok e :=
  ⟨nesting_le_of_load loaded, load_eq_ok_iff_nesting_le.mpr (nesting_le_of_load loaded)⟩

/-- An array for a record, a directive with contents, fields in another order, a member that is not
known and an escape. -/
theorem load_writeTree_of_load_respelled :
    load "\x7b\"Marker\":[\x7b\"Aside\":null\x7d,\x7b\"Call\":\x7b\"args\":[],\"at\":[-2.5e3],\"callee\":\x7b\"Ident\":[\"\\u0066\"]\x7d\x7d\x7d]\x7d" =
      .ok (.marked .aside (.call (.name "f") [])) ∧
    load (writeTree (.marked .aside (.call (.name "f") []))) =
      .ok (.marked .aside (.call (.name "f") [])) := by
  have loaded : load "\x7b\"Marker\":[\x7b\"Aside\":null\x7d,\x7b\"Call\":\x7b\"args\":[],\"at\":[-2.5e3],\"callee\":\x7b\"Ident\":[\"\\u0066\"]\x7d\x7d\x7d]\x7d" =
      .ok (.marked .aside (.call (.name "f") [])) := eq_ok_of_toOption (by decide +kernel)
  exact ⟨loaded, (load_writeTree_of_load loaded).2⟩

end Exchange

end Pipelines
