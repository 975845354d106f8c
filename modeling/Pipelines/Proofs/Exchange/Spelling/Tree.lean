import Pipelines.Proofs.Exchange.RoundTrip
import Pipelines.Proofs.Exchange.Spelling.Record

namespace Pipelines.Exchange

namespace Reader

theorem takes_tag {directive : Tag} {depth room : Nat} {spelled : List Char}
    (spells : SpellsTag directive depth spelled) (fits : depth ≤ room) :
    Takes (inside room).tag spelled directive := by
  cases spells with
  | bare spells => cases directive <;> exact takes_bare rfl rfl spells
  | withNull spells =>
      obtain ⟨room, rfl⟩ := Nat.exists_eq_add_of_le' fits
      cases directive <;> exact takes_variant rfl (takes_unit.map _) spells

theorem takes_hole {room : Nat} {spelled : List Char} (spells : SpellsText "Placeholder" spelled) :
    Takes (expr room) spelled .hole := by
  have listed : formNames.lookup "Placeholder" = some Form.hole := rfl
  have accepted : bareForm .hole = .ok .hole := rfl
  rcases room with _ | _ | room
  · exact takes_bare listed accepted spells
  · exact takes_bare listed accepted spells
  · rw [expr_add_two]
    exact takes_bare listed accepted spells

theorem takes_holeWithNull {room : Nat} (fits : 1 ≤ room) {spelled : List Char}
    (spells : SpellsVariant "Placeholder" "null".toList spelled) :
    Takes (expr room) spelled .hole := by
  have content : ∀ inside, Takes (contents inside .hole) "null".toList .hole := fun _ =>
    takes_unit.map fun _ => Expr.hole
  rcases room with _ | _ | room
  · exact absurd fits (by decide)
  · exact takes_variant rfl (content _) spells
  · rw [expr_add_two]
    exact takes_variant rfl (content _) spells

/-- A form with contents is read in any room that its two brackets and the contents fit in. -/
theorem takes_form {e : Expr} {name : String} {form : Form}
    {depth room : Nat} {record spelled : List Char} (listed : formNames.lookup name = some form)
    (takes : ∀ room, depth ≤ room → Takes (contents (some (inside room)) form) record e)
    (spells : SpellsVariant name record spelled) (fits : 2 + depth ≤ room) :
    Takes (expr room) spelled e := by
  obtain ⟨room, rfl⟩ := Nat.exists_eq_add_of_le' (Nat.le_trans (Nat.le_add_right 2 depth) fits)
  rw [expr_add_two]
  exact takes_variant listed (takes room (by omega)) spells

theorem takes_exprs {es : List Expr} {depth room : Nat} {spelled : List Char}
    (spells : SpellsList es depth spelled) (fits : depth ≤ room)
    (each : ∀ {depth room : Nat} {elements : List (List Char)}, SpellsEach es depth elements →
      depth ≤ room → List.Forall₂ (Takes (.delay fun _ => expr room)) elements es) :
    Takes (inside room).exprs spelled es := by
  cases spells with
  | list spells bracketed =>
      obtain ⟨room, rfl⟩ := Nat.exists_eq_add_of_le' (Nat.le_trans (Nat.le_add_right 1 _) fits)
      exact takes_list bracketed (each spells (by omega))

mutual

/-- A spelled tree is read in any room that its nesting fits in. -/
theorem takes_expr (e : Expr) {depth room : Nat} {spelled : List Char}
    (spells : Spells e depth spelled) (fits : depth ≤ room) : Takes (expr room) spelled e := by
  cases e with
  | hole =>
      cases spells with
      | hole spells => exact takes_hole spells
      | holeWithNull spells => exact takes_holeWithNull fits spells
  | name x =>
      cases spells with
      | name spellsName record spells =>
          have field : Takes (record1 "Ident" (some ⟨"name", text⟩)) _ _ :=
            takes_record1 (takes_text spellsName) record
          have enough : 2 + 0 ≤ room := fits
          refine takes_form rfl (fun _ _ => ?_) spells enough
          exact field.map Expr.name
  | raw payload =>
      cases spells with
      | raw spellsPayload record spells =>
          have field : Takes (record1 "NodeOpaque" (some ⟨"payload", text⟩)) _ _ :=
            takes_record1 (takes_text spellsPayload) record
          have enough : 2 + 0 ≤ room := fits
          refine takes_form rfl (fun _ _ => ?_) spells enough
          exact field.map Expr.raw
  -- The parts of a call, an assignment, a block or a directive are spelled inside two brackets, so
  -- the room that is left for them is enough.
  | call callee args =>
      cases spells with
      | call spellsCallee spellsArgs record spells =>
          refine takes_form rfl (fun room within => ?_) spells fits
          have inArgs : Takes (inside room).exprs _ args :=
            takes_exprs spellsArgs (by omega) (takes_each args)
          have fields : Takes (record2 "NodeCall"
              (some (⟨"callee", (inside room).expr⟩, ⟨"args", (inside room).exprs⟩))) _ _ :=
            takes_record2 (by simp) (takes_expr callee spellsCallee (by omega)).delay inArgs record
          exact fields.map fun (callee, args) => Expr.call callee args
  | assign target value =>
      cases spells with
      | assign spellsTarget spellsValue record spells =>
          refine takes_form rfl (fun room within => ?_) spells fits
          have fields : Takes (record2 "NodeAssign"
              (some (⟨"target", (inside room).expr⟩, ⟨"value", (inside room).expr⟩))) _ _ :=
            takes_record2 (by simp) (takes_expr target spellsTarget (by omega)).delay
              (takes_expr value spellsValue (by omega)).delay record
          exact fields.map fun (target, value) => Expr.assign target value
  | block lines =>
      cases spells with
      | block spellsLines record spells =>
          refine takes_form rfl (fun room within => ?_) spells fits
          have field : Takes (record1 "NodeGroup" (some ⟨"lines", (inside room).exprs⟩)) _ _ :=
            takes_record1 (takes_exprs spellsLines within (takes_each lines)) record
          exact field.map Expr.block
  | marked directive inner =>
      cases spells with
      | marked spellsTag spellsInner record spells =>
          refine takes_form rfl (fun room within => ?_) spells fits
          have fields : Takes (record2 "NodeMarker"
              (some (⟨"tag", (inside room).tag⟩, ⟨"inner", (inside room).expr⟩))) _ _ :=
            takes_record2 (by simp) (takes_tag spellsTag (by omega))
              (takes_expr inner spellsInner (by omega)).delay record
          exact fields.map fun (tag, inner) => Expr.marked tag inner

theorem takes_each (es : List Expr) {depth room : Nat} {elements : List (List Char)}
    (spells : SpellsEach es depth elements) (fits : depth ≤ room) :
    List.Forall₂ (Takes (.delay fun _ => expr room)) elements es := by
  cases es with
  | nil => cases spells; exact .nil
  | cons e es =>
      cases spells with
      | cons first others =>
          exact .cons (takes_expr e first (by omega)).delay (takes_each es others (by omega))

end

end Reader

/-- Every spelling of a tree whose brackets are nested at most 127 deep loads as that tree. -/
theorem load_of_spellsTree {e : Expr} {depth : Nat} {text : String}
    (spells : SpellsTree e depth text) (shallow : depth ≤ 127) : load text = .ok e := by
  obtain ⟨before, spelled, after, beforeBlank, spells, afterBlank, same⟩ := spells
  have takes : Reader.Takes (Reader.expr nestingLimit) spelled e := Reader.takes_expr e spells shallow
  have read := takes.behind beforeBlank afterBlank.stops_alone
  have ended : skipBlank after = [] := by
    rw [← List.append_nil after, afterBlank.skip]
    rfl
  simp [load, readTree, same, read, ended, bind, Except.bind, pure, Except.pure]

theorem spellsText_plain {value : String} (plain : value.toList.all (PlainChar ·) = true) :
    SpellsText value (quoted (value.toList.map fun c => [c])) := by
  refine ⟨_, ?_, rfl⟩
  generalize value.toList = cs at plain
  induction cs with
  | nil => exact .nil
  | cons c cs ih =>
      simp only [List.all_cons, Bool.and_eq_true, decide_eq_true_eq] at plain
      exact .cons (.plain plain.1) (ih plain.2)

/-- A surrogate pair, an array for a record, fields in another order, a member that is not known, a
directive with contents and blanks. -/
theorem load_of_spellsTree_respelled :
    SpellsTree (.marked .aside (.name "😀")) 4
      "\x7b\"Marker\": \x7b\"inner\":\x7b\"Ident\":[\"\\uD83d\\ude00\"]\x7d,\"at\":[-1],\"tag\":\x7b\"Aside\":null\x7d\x7d\x7d\n" ∧
    load "\x7b\"Marker\": \x7b\"inner\":\x7b\"Ident\":[\"\\uD83d\\ude00\"]\x7d,\"at\":[-1],\"tag\":\x7b\"Aside\":null\x7d\x7d\x7d\n" =
      .ok (.marked .aside (.name "😀")) := by
  have none : Blanks [] := nofun
  have space : Blanks [' '] := by simp [Blanks]
  have line : Blanks ['\n'] := by simp [Blanks]
  have high : UnitDigits 0xD83D "D83d".toList :=
    ⟨[13, 8, 3, 13], .cons (by decide) (.cons (by decide) (.cons (by decide) (.cons (by decide) .nil))),
      rfl, rfl⟩
  have low : UnitDigits 0xDE00 "de00".toList :=
    ⟨[13, 14, 0, 0], .cons (by decide) (.cons (by decide) (.cons (by decide) (.cons (by decide) .nil))),
      rfl, rfl⟩
  have name : SpellsText "😀" "\"\\uD83d\\ude00\"".toList :=
    ⟨_, .cons (.pair (by decide) high low) .nil, rfl⟩
  have inner : Spells (.name "😀") 2 "\x7b\"Ident\":[\"\\uD83d\\ude00\"]\x7d".toList :=
    .name name (.array (.filled (.last none none)))
      ⟨_, ⟨_, spellsText_plain rfl, [], [], none, none, rfl⟩, .filled (.last none none)⟩
  have tag : SpellsTag .aside 1 "\x7b\"Aside\":null\x7d".toList :=
    .withNull ⟨_, ⟨_, spellsText_plain rfl, [], [], none, none, rfl⟩,
      .filled (.last none none)⟩
  have number : IsNumber "-1".toList :=
    ⟨['-'], by simp, ['1'], [], [], .inr ⟨⟨by simp, by simp⟩, by simp⟩, .inl rfl, .inl rfl, rfl⟩
  have position : IsValue "[-1]".toList :=
    .list (List.forall_mem_singleton.mpr (.number number)) (.filled (.last none none))
  have members : List.Forall₂ SpellsMember
      [("inner", "\x7b\"Ident\":[\"\\uD83d\\ude00\"]\x7d".toList), ("at", "[-1]".toList),
        ("tag", "\x7b\"Aside\":null\x7d".toList)]
      ["\"inner\":\x7b\"Ident\":[\"\\uD83d\\ude00\"]\x7d".toList, "\"at\":[-1]".toList,
        "\"tag\":\x7b\"Aside\":null\x7d".toList] :=
    .cons ⟨_, spellsText_plain rfl, [], [], none, none, rfl⟩
      (.cons ⟨_, spellsText_plain rfl, [], [], none, none, rfl⟩
        (.cons ⟨_, spellsText_plain rfl, [], [], none, none, rfl⟩ .nil))
  have record : SpellsRecord [("tag", _), ("inner", _)] _ :=
    .object (by simpa using List.Perm.swap _ _ _) (by simpa using position) members
      (.filled (.more none none (.more none none (.last none none))))
  have marked := Spells.marked tag inner record
    ⟨_, ⟨_, spellsText_plain rfl, [], [' '], none, space, rfl⟩, .filled (.last none none)⟩
  have spells : SpellsTree (.marked .aside (.name "😀")) 4 _ :=
    ⟨[], _, ['\n'], none, marked, line, String.toList_ofList⟩
  exact ⟨spells, load_of_spellsTree spells (by decide)⟩

end Pipelines.Exchange
