import Pipelines.Expr.Hole
import Pipelines.Proofs.Rendered.Reading

namespace Pipelines.Expr

/-- The words that mean something of their own in a rendering. -/
def reservedWords : List String :=
  ["_", "begin", "end", "@aside"]

/-- Whether a name reads as nothing but a name. -/
def isPlainName (x : String) : Bool :=
  !x.isEmpty && x.toList.all isWordChar && !x.toList.head?.any Char.isDigit &&
    !reservedWords.contains x

/-- Whether a payload is a number. -/
def isNumeral (payload : String) : Bool :=
  !payload.isEmpty && payload.toList.all Char.isDigit

mutual

/-- Whether a tree has plain names, numerals for payloads and names for targets, and whether every
broadcast that is called is one of an operand. -/
def isOrdinary : Expr → Bool
  | .name x => isPlainName x
  | .hole => true
  | .raw payload => isNumeral payload
  | .call callee args =>
      callee.isOrdinary && allOrdinary args &&
        match callee with
        | .marked .broadcast inner => inner.isOperand
        | _ => true
  | .assign target value => target.name?.isSome && target.isOrdinary && value.isOrdinary
  | .block lines => allOrdinary lines
  | .marked _ inner => inner.isOrdinary

def allOrdinary : List Expr → Bool
  | [] => true
  | e :: es => e.isOrdinary && allOrdinary es

end

variable {word : List Char} {e callee : Expr} {args : List Expr}

/-- An operand reads back if its rendering is read up to the argument lists behind it. -/
theorem ReadsBack.of_callee (starts : ∀ rest, startsForm (e.render.toList ++ rest) = true)
    (callee : ∀ rest f after, endsOperand rest = true → ReadsCalls e rest f after →
      Reads (e.render.toList ++ rest) f after) : ReadsBack e where
  starts := starts
  whole rest ends := callee rest e rest (endsOperand_of_endsForm ends) (.done ends)
  callee _ := callee

theorem Spells.startsForm (spells : Spells word e) (rest : List Char) :
    startsForm (word ++ rest) = true := by
  cases word with
  | nil => exact absurd rfl spells.nonempty
  | cons c word => simp [Expr.startsForm, spells.letters c List.mem_cons_self]

theorem Spells.readsBack (spells : Spells word e) (rendered : e.render.toList = word) :
    ReadsBack e := by
  subst rendered
  exact .of_callee spells.startsForm fun rest f after ends calls =>
    .operand (opening_operand spells ends) calls

theorem spells_name {x : String} (plain : isPlainName x = true) : Spells x.toList (.name x) := by
  simp only [isPlainName, Bool.and_eq_true, Bool.not_eq_true'] at plain
  obtain ⟨⟨⟨nonempty, letters⟩, notDigit⟩, unreserved⟩ := plain
  have free : ∀ y ∈ reservedWords, x.toList ≠ y.toList := by
    intro y reserved same
    rw [String.toList_inj.1 same] at unreserved
    simp [reserved] at unreserved
  have notHole : x.toList ≠ ['_'] := free "_" (by decide)
  exact {
    nonempty := by simpa using nonempty
    letters := List.all_eq_true.1 letters
    notBegin := free "begin" (by decide)
    notAside := free "@aside" (by decide)
    spelled := by simp [ofWord, notHole, notDigit] }

theorem spells_raw {payload : String} (numeral : isNumeral payload = true) :
    Spells payload.toList (.raw payload) := by
  simp only [isNumeral, Bool.and_eq_true, Bool.not_eq_true', List.all_eq_true] at numeral
  obtain ⟨nonempty, digits⟩ := numeral
  have nonempty : payload.toList ≠ [] := by simpa using nonempty
  have free : ∀ word : List Char, word.all Char.isDigit = false → payload.toList ≠ word := by
    rintro word other rfl
    rw [List.all_eq_true.2 digits] at other
    cases other
  have notHole : payload.toList ≠ ['_'] := free _ (by decide)
  have digit : payload.toList.head?.any Char.isDigit = true := by
    rw [List.head?_eq_some_head nonempty]
    exact digits _ (List.head_mem nonempty)
  exact {
    nonempty := nonempty
    letters := fun c member => by simp [isWordChar, Char.isAlphanum, digits c member]
    notBegin := free _ (by decide)
    notAside := free _ (by decide)
    spelled := by simp [ofWord, notHole, digit] }

theorem spells_hole : Spells ['_'] .hole where
  nonempty := List.cons_ne_nil _ _
  letters := List.forall_mem_singleton.2 rfl
  notBegin := by decide
  notAside := by decide
  spelled := rfl

theorem isAlphanumeric_of_isDigit {c : Char} (digit : c.isDigit = true) :
    Text.isAlphanumeric c = true := by
  simp only [Char.isDigit, Bool.and_eq_true, decide_eq_true_eq, UInt32.le_iff_toNat_le] at digit
  obtain ⟨low, high⟩ : 0x0030 ≤ c.toNat ∧ c.toNat ≤ 0x0039 := digit
  rw [Text.isAlphanumeric, Text.alphanumericRanges, Text.covers, decide_eq_true low,
    decide_eq_true high]
  rfl

/-- Among ordinary trees the callees without parentheses are the operands. -/
theorem standsAlone_eq_isOperand (ordinary : e.isOrdinary = true) :
    e.standsAlone = e.isOperand := by
  cases e with
  | raw payload =>
      simp only [isOrdinary, isNumeral, Bool.and_eq_true, Bool.not_eq_true',
        List.all_eq_true] at ordinary
      have word : ∀ c ∈ payload.toList, Text.isAlphanumeric c = true :=
        fun c member => isAlphanumeric_of_isDigit (ordinary.2 c member)
      simp only [standsAlone, isOperand, isWord, Bool.and_eq_true, Bool.not_eq_true',
        List.all_eq_true]
      exact ⟨ordinary.1, fun c member => by simp [word c member]⟩
  | _ => rfl

/-- The argument list of a call behind the parenthesis that opens it, and a text behind that. -/
def renderArguments (args : List Expr) (rest : List Char) : List Char :=
  (", ".intercalate (renderAll args)).toList ++ (")".toList ++ rest)

theorem readsItems_arguments (readsBack : ∀ e ∈ args, ReadsBack e) (rest : List Char) :
    ReadsItems argumentListing (renderArguments args rest) args rest :=
  readsItems_intercalate separates_arguments args readsBack rest

/-- A call of an operand. -/
theorem ReadsBack.call (head : ReadsBack callee) (operand : callee.isOperand = true)
    (alone : callee.standsAlone = true) (readsBack : ∀ e ∈ args, ReadsBack e) :
    ReadsBack (.call callee args) := by
  have unmarked : ∀ inner, callee ≠ .marked .broadcast inner := by
    intro inner marked
    subst marked
    cases operand
  have rendered : ∀ rest, (Expr.call callee args).render.toList ++ rest =
      callee.render.toList ++ ('(' :: renderArguments args rest) := by
    intro rest
    rw [render]
    · simp [alone, renderArguments]
    · exact unmarked
  refine .of_callee (fun rest => ?starts) fun rest f after _ calls => ?reads
  case starts =>
    rw [rendered]
    exact head.starts _
  case reads =>
    rw [rendered]
    exact head.callee operand _ f after rfl (.call (readsItems_arguments readsBack rest) calls)

/-- A call of an expression that is set in parentheses. -/
theorem ReadsBack.call_parenthesized (head : ReadsBack callee)
    (unmarked : ∀ inner, callee ≠ .marked .broadcast inner) (alone : callee.standsAlone = false)
    (readsBack : ∀ e ∈ args, ReadsBack e) : ReadsBack (.call callee args) := by
  have rendered : ∀ rest, (Expr.call callee args).render.toList ++ rest =
      '(' :: (callee.render.toList ++ (')' :: '(' :: renderArguments args rest)) := by
    intro rest
    rw [render]
    · simp [alone, renderArguments]
    · exact unmarked
  refine .of_callee (fun rest => ?starts) fun rest f after _ calls => ?reads
  case starts =>
    rw [rendered]
    rfl
  case reads =>
    rw [rendered]
    exact .parenthesis (opening_parenthesis _) (head.whole _ rfl)
      (.call (readsItems_arguments readsBack rest) calls)

/-- A call of a broadcast operand. -/
theorem ReadsBack.call_broadcast (head : ReadsBack callee) (operand : callee.isOperand = true)
    (readsBack : ∀ e ∈ args, ReadsBack e) : ReadsBack (.call (.marked .broadcast callee) args) := by
  have rendered : ∀ rest, (Expr.call (.marked .broadcast callee) args).render.toList ++ rest =
      callee.render.toList ++ ('.' :: '(' :: renderArguments args rest) := by
    intro rest
    simp [render, renderArguments]
  refine .of_callee (fun rest => ?starts) fun rest f after _ calls => ?reads
  case starts =>
    rw [rendered]
    exact head.starts _
  case reads =>
    rw [rendered]
    exact head.callee operand _ f after rfl (.broadcast (readsItems_arguments readsBack rest) calls)

theorem ReadsBack.assign {x : String} {value : Expr} (target : Spells x.toList (.name x))
    (body : ReadsBack value) : ReadsBack (.assign (.name x) value) := by
  have rendered : ∀ rest, (Expr.assign (.name x) value).render.toList ++ rest =
      x.toList ++ (" = ".toList ++ (value.render.toList ++ rest)) := by
    intro rest
    simp [render]
  refine ⟨fun rest => ?starts, fun rest ends => ?whole, nofun⟩
  case starts =>
    rw [rendered]
    exact target.startsForm _
  case whole =>
    rw [rendered]
    exact .assigned (opening_assigned target _) (body.whole rest ends)

theorem ReadsBack.block {lines : List Expr} (readsBack : ∀ e ∈ lines, ReadsBack e) :
    ReadsBack (.block lines) := by
  have rendered : ∀ rest, (Expr.block lines).render.toList ++ rest = "begin ".toList ++
      (("; ".intercalate (renderAll lines)).toList ++ (" end".toList ++ rest)) := by
    intro rest
    simp only [render, String.toList_append, List.append_assoc]
  refine ⟨fun rest => ?starts, fun rest _ => ?whole, nofun⟩
  case starts =>
    rw [rendered]
    rfl
  case whole =>
    rw [rendered]
    exact .block (opening_begin _) (readsItems_intercalate separates_lines lines readsBack rest)

theorem ReadsBack.marked {inner : Expr} (tag : Tag) (body : ReadsBack inner) :
    ReadsBack (.marked tag inner) := by
  have rendered : ∀ rest, (Expr.marked tag inner).render.toList ++ rest =
      tag.spelling.toList ++ (' ' :: (inner.render.toList ++ rest)) := by
    intro rest
    simp [render]
  refine ⟨fun rest => ?starts, fun rest ends => ?whole, nofun⟩
  case starts =>
    rw [rendered]
    cases tag <;> rfl
  case whole =>
    rw [rendered]
    exact .marked (opening_spelling tag _) (body.whole rest ends)

mutual

theorem readsBack_of_isOrdinary (e : Expr) (ordinary : e.isOrdinary = true) : ReadsBack e := by
  cases e with
  | name x => exact (spells_name ordinary).readsBack rfl
  | hole => exact spells_hole.readsBack rfl
  | raw payload => exact (spells_raw ordinary).readsBack rfl
  | call callee args =>
      simp only [isOrdinary, Bool.and_eq_true] at ordinary
      obtain ⟨⟨ordinaryCallee, ordinaryArgs⟩, operand⟩ := ordinary
      have head := readsBack_of_isOrdinary callee ordinaryCallee
      have arguments := readsBack_of_allOrdinary args ordinaryArgs
      -- The same split as in `render`: a callee stands alone, is set in parentheses or is broadcast.
      cases callee with
      | name | hole | raw | call =>
          exact head.call rfl (standsAlone_eq_isOperand ordinaryCallee) arguments
      | assign | block => exact head.call_parenthesized nofun rfl arguments
      | marked tag inner =>
          cases tag with
          | aside => exact head.call_parenthesized nofun rfl arguments
          | broadcast =>
              have inside := readsBack_of_isOrdinary inner ordinaryCallee
              exact inside.call_broadcast operand arguments
  | assign target value =>
      simp only [isOrdinary, Bool.and_eq_true] at ordinary
      obtain ⟨⟨named, plain⟩, ordinaryValue⟩ := ordinary
      obtain ⟨x, found⟩ := Option.isSome_iff_exists.1 named
      obtain rfl := name?_eq_some.1 found
      exact .assign (spells_name plain) (readsBack_of_isOrdinary value ordinaryValue)
  | block lines => exact .block (readsBack_of_allOrdinary lines ordinary)
  | marked tag inner => exact .marked tag (readsBack_of_isOrdinary inner ordinary)

theorem readsBack_of_allOrdinary (es : List Expr) (ordinary : allOrdinary es = true) :
    ∀ e ∈ es, ReadsBack e := by
  cases es with
  | nil => simp
  | cons e es =>
      simp only [allOrdinary, Bool.and_eq_true] at ordinary
      exact List.forall_mem_cons.2
        ⟨readsBack_of_isOrdinary e ordinary.1, readsBack_of_allOrdinary es ordinary.2⟩

end

/-- Ordinary trees with the same rendering are the same tree. -/
theorem eq_of_render_eq {a b : Expr} (ordinary : a.isOrdinary = true)
    (otherOrdinary : b.isOrdinary = true) (same : a.render = b.render) : a = b := by
  have first := (readsBack_of_isOrdinary a ordinary).whole [] rfl
  have second := (readsBack_of_isOrdinary b otherOrdinary).whole [] rfl
  rw [same] at first
  exact (first.unique b [] second).1

theorem eq_of_render_eq_of_filled :
    (Expr.call (.assign (.name "y") (.call (.marked .broadcast (.name "f")) [.hole]))
        [.block [.raw "1", .hole]]).fill "chain" (.name "x") =
      .call (.assign (.name "y") (.call (.marked .broadcast (.name "f")) [.name "x"]))
        [.block [.raw "1", .name "x"]] :=
  eq_of_render_eq (by decide) (by decide) (by decide)

/-- A broadcast that is called has to be one of an operand: in `@aside f.()` the call could stand
inside the directive or outside. -/
example :
    (Expr.call (.marked .broadcast (.marked .aside (.name "f"))) []).render =
      (Expr.marked .aside (.call (.marked .broadcast (.name "f")) [])).render := by decide

end Pipelines.Expr
