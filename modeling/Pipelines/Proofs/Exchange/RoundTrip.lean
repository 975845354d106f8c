import Pipelines.Exchange.Storage
import Pipelines.Proofs.Exchange.Reads

namespace Pipelines

namespace Expr

mutual

/-- How many brackets stand inside each other in the written form of a tree. -/
def nesting : Expr → Nat
  | .hole => 0
  | .name _ | .raw _ => 2
  | .call callee args => max 3 (max (2 + callee.nesting) (3 + nestingOf args))
  | .assign target value => 2 + max target.nesting value.nesting
  | .block lines => max 3 (3 + nestingOf lines)
  | .marked _ inner => 2 + inner.nesting

def nestingOf : List Expr → Nat
  | [] => 0
  | e :: es => max e.nesting (nestingOf es)

end

end Expr

namespace Exchange

/-- A value that is read if there is room for the brackets it needs. -/
def fits (room need : Nat) (value : α) : Except ReadError α :=
  if need ≤ room then .ok value else .error .tooDeep

theorem fits_zero (room : Nat) (value : α) : fits room 0 value = .ok value :=
  if_pos (Nat.zero_le room)

theorem fits_add (extra room need : Nat) (value : α) :
    fits (room + extra) (need + extra) value = fits room need value := by
  simp [fits]

theorem map_fits (f : α → β) (room need : Nat) (value : α) :
    (fits room need value).map f = fits room need (f value) := by
  unfold fits
  split <;> rfl

theorem fits_both (f : α → β → γ) (room need needOther : Nat) (value : α) (other : β) :
    (do
      let value ← fits room need value
      let other ← fits room needOther other
      return f value other) = fits room (max need needOther) (f value other) := by
  unfold fits
  by_cases first : need ≤ room
  · by_cases second : needOther ≤ room
    · rw [if_pos first, if_pos second, if_pos (Nat.max_le.mpr ⟨first, second⟩)]
      rfl
    · rw [if_pos first, if_neg second, if_neg fun both => second (Nat.max_le.mp both).2]
      rfl
  · rw [if_neg first, if_neg fun both => first (Nat.max_le.mp both).1]
    rfl

theorem mapM_fits (room : Nat) (es : List Expr) :
    es.mapM (fun e => fits room e.nesting e) = fits room (Expr.nestingOf es) es := by
  induction es with
  | nil => simp [fits, Expr.nestingOf]; rfl
  | cons e es ih => rw [List.mapM_cons, ih, fits_both List.cons, Expr.nestingOf]

namespace Reader

/-- The readers for the fields of an expression inside two brackets. -/
def inside (room : Nat) : Inside where
  expr := .delay fun _ => expr room
  exprs := list (match room with
    | 0 => none
    | room + 1 => some (.delay fun _ => expr room))
  tag := tag (match room with
    | 0 => none
    | _ + 1 => some unit)

theorem expr_add_two (room : Nat) : expr (room + 2) = exprWith (some (some (inside room))) := by
  cases room <;> rfl

theorem reads_tag (content : Option (Reader Unit)) (directive : Tag) :
    Reads (tag content) (writeText (tagName directive)) (.ok directive) := by
  cases directive <;> exact reads_bare rfl rfl

theorem reads_expr_hole (room : Nat) : Reads (expr room) (writeText "Placeholder") (.ok .hole) := by
  rcases room with _ | _ | room
  · exact reads_bare rfl rfl
  · exact reads_bare rfl rfl
  · rw [expr_add_two]
    exact reads_bare rfl rfl

theorem reads_contents_none {form : Form} (solid : form ≠ .hole) (depth : Nat)
    (members : List (String × List Char)) :
    Reads (contents none form) (writeObject depth members) (.error .tooDeep) := by
  cases form with
  | hole => exact absurd rfl solid
  | name | block | raw => exact (reads_record_none depth members).map _
  | call | assign | marked =>
      rw [contents, record2]
      exact (reads_record_none depth members).map _

theorem reads_expr_cramped {room : Nat} (cramped : room < 2) (depth : Nat) {e : Expr}
    (solid : e ≠ .hole) : Reads (expr room) (writeExpr depth e) (.error .tooDeep) := by
  obtain rfl | rfl : room = 0 ∨ room = 1 := by omega
  · cases e with
    | hole => exact absurd rfl solid
    | _ =>
        rw [writeExpr, writeVariant]
        exact reads_variant_none depth _
  · cases e with
    | hole => exact absurd rfl solid
    | _ =>
        rw [writeExpr, writeVariant]
        exact reads_variant depth rfl (reads_contents_none (by decide) (depth + 1) _)

theorem reads_inside_exprs {room width : Nat} (depth : Nat) {es : List Expr}
    (each : ∀ room, ∀ e ∈ es, Reads (expr room) (writeExpr width e) (fits room e.nesting e)) :
    Reads (inside room).exprs (writeList depth (writeExprs width es))
      (fits room (Expr.nestingOf es + 1) es) := by
  cases room with
  | zero => exact reads_list_none depth _
  | succ room =>
      rw [fits_add 1, ← mapM_fits, writeExprs_eq_map]
      exact reads_list depth fun e member => (each room e member).delay

theorem reads_expr_of_contents {e : Expr} {name : String} {form : Form}
    {fields : List (String × List Char)} {room depth need : Nat}
    (written : writeExpr depth e = writeVariant depth name fields)
    (listed : formNames.lookup name = some form)
    (reads : Reads (contents (some (inside room)) form) (writeObject (depth + 1) fields)
      (fits room need e)) (nesting : e.nesting = need + 2) :
    Reads (expr (room + 2)) (writeExpr depth e) (fits (room + 2) e.nesting e) := by
  rw [expr_add_two, written, nesting, fits_add]
  exact reads_variant depth listed reads

mutual

/-- A written tree is read back in any room that its nesting fits in. -/
theorem reads_expr (e : Expr) (room depth : Nat) :
    Reads (expr room) (writeExpr depth e) (fits room e.nesting e) := by
  by_cases hole : e = .hole
  · subst hole
    rw [Expr.nesting, fits_zero, writeExpr]
    exact reads_expr_hole room
  by_cases cramped : room < 2
  · have deep : ¬ e.nesting ≤ room := by
      cases e with
      | hole => exact absurd rfl hole
      | _ => simp only [Expr.nesting]; omega
    rw [fits, if_neg deep]
    exact reads_expr_cramped cramped depth hole
  -- From here on there is room for both brackets of the form, and `room` is what is left inside.
  obtain ⟨room, rfl⟩ := Nat.exists_eq_add_of_le' (Nat.le_of_not_lt cramped)
  cases e with
  | hole => exact absurd rfl hole
  | name x =>
      have field : Reads (record1 "Ident" (some ⟨"name", text⟩))
          (writeObject (depth + 1) [("name", writeText x)]) (.ok x) :=
        reads_record1 (depth + 1) (reads_text x)
      refine reads_expr_of_contents rfl rfl ?_ rfl
      rw [fits_zero]
      exact field.map Expr.name
  | raw payload =>
      have field : Reads (record1 "NodeOpaque" (some ⟨"payload", text⟩))
          (writeObject (depth + 1) [("payload", writeText payload)]) (.ok payload) :=
        reads_record1 (depth + 1) (reads_text payload)
      refine reads_expr_of_contents rfl rfl ?_ rfl
      rw [fits_zero]
      exact field.map Expr.raw
  | call callee args =>
      have inArgs : Reads (inside room).exprs (writeList (depth + 2) (writeExprs (depth + 3) args)) _ :=
        reads_inside_exprs (depth + 2) fun room => reads_exprs args room (depth + 3)
      have fields : Reads (record2 "NodeCall"
          (some (⟨"callee", (inside room).expr⟩, ⟨"args", (inside room).exprs⟩)))
          (writeObject (depth + 1) [("callee", writeExpr (depth + 2) callee), ("args", _)]) _ :=
        reads_record2 (depth + 1) (by simp) (reads_expr callee room (depth + 2)).delay inArgs
      rw [fits_both Prod.mk] at fields
      have call := fields.map fun (callee, args) => Expr.call callee args
      rw [map_fits] at call
      refine reads_expr_of_contents rfl rfl call ?_
      simp only [Expr.nesting]
      omega
  | assign target value =>
      have fields : Reads (record2 "NodeAssign"
          (some (⟨"target", (inside room).expr⟩, ⟨"value", (inside room).expr⟩)))
          (writeObject (depth + 1) [("target", writeExpr (depth + 2) target), ("value", _)]) _ :=
        reads_record2 (depth + 1) (by simp) (reads_expr target room (depth + 2)).delay
          (reads_expr value room (depth + 2)).delay
      rw [fits_both Prod.mk] at fields
      have assign := fields.map fun (target, value) => Expr.assign target value
      rw [map_fits] at assign
      refine reads_expr_of_contents rfl rfl assign ?_
      simp only [Expr.nesting]
      omega
  | block lines =>
      have field : Reads (record1 "NodeGroup" (some ⟨"lines", (inside room).exprs⟩))
          (writeObject (depth + 1)
            [("lines", writeList (depth + 2) (writeExprs (depth + 3) lines))]) _ :=
        reads_record1 (depth + 1) (reads_inside_exprs (depth + 2) fun room =>
          reads_exprs lines room (depth + 3))
      have block := field.map Expr.block
      rw [map_fits] at block
      refine reads_expr_of_contents rfl rfl block ?_
      simp only [Expr.nesting]
      omega
  | marked directive inner =>
      have fields : Reads (record2 "NodeMarker"
          (some (⟨"tag", (inside room).tag⟩, ⟨"inner", (inside room).expr⟩)))
          (writeObject (depth + 1) [("tag", writeText (tagName directive)), ("inner", _)]) _ :=
        reads_record2 (depth + 1) (by simp) (reads_tag _ directive)
          (reads_expr inner room (depth + 2)).delay
      rw [← fits_zero room directive, fits_both Prod.mk] at fields
      have marked := fields.map fun (tag, inner) => Expr.marked tag inner
      rw [map_fits] at marked
      refine reads_expr_of_contents rfl rfl marked ?_
      simp only [Expr.nesting]
      omega

theorem reads_exprs (es : List Expr) (room depth : Nat) :
    ∀ e ∈ es, Reads (expr room) (writeExpr depth e) (fits room e.nesting e) := by
  cases es with
  | nil => exact fun e member => nomatch member
  | cons e es =>
      exact List.forall_mem_cons.mpr ⟨reads_expr e room depth, reads_exprs es room depth⟩

end

end Reader

theorem readTree_written (e : Expr) : readTree (writeExpr 0 e) = fits nestingLimit e.nesting e := by
  have reads := Reader.reads_expr e nestingLimit 0
  have read := reads.run _ _ (reads.skipBlank_eq _ [] rfl)
  rw [List.append_nil] at read
  rw [readTree, read]
  unfold fits
  split <;> rfl

/-- A written tree loads back if its brackets are nested at most 127 deep, and otherwise they are too
deep to be read. -/
theorem load_writeTree (e : Expr) :
    load (writeTree e) =
      if e.nesting ≤ 127 then .ok e else .error (.generic "recursion limit exceeded") := by
  rw [load, writeTree, String.toList_ofList, readTree_written, fits, nestingLimit]
  by_cases shallow : e.nesting ≤ 127
  · rw [if_pos shallow, if_pos shallow]
  · rw [if_neg shallow, if_neg shallow]
    rfl

end Exchange

end Pipelines
