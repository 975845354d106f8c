import Mathlib.Data.List.Basic
import Pipelines.Expr.Render

namespace Pipelines.Expr

/-- Whether a character may stand in a word of a rendering. -/
def isWordChar (c : Char) : Bool :=
  c.isAlphanum || c == '_' || c == '@'

/-- The operand that a word is. -/
def ofWord (word : List Char) : Expr :=
  if word = ['_'] then .hole
  else if word.head?.any Char.isDigit then .raw (.ofList word)
  else .name (.ofList word)

/-- What a rendering starts with, and the text behind that. -/
inductive Opening where
  /-- A callee in parentheses. -/
  | parenthesis (rest : List Char)
  | block (rest : List Char)
  | marked (tag : Tag) (rest : List Char)
  | assigned (target : Expr) (rest : List Char)
  | operand (e : Expr) (rest : List Char)

/-- What a text starts with. -/
def opening (text : List Char) : Opening :=
  let word := text.takeWhile isWordChar
  let rest := text.dropWhile isWordChar
  if word = "begin".toList then .block (rest.drop 1)
  else if word = "@aside".toList then .marked .aside (rest.drop 1)
  else
    match rest with
    -- No word stands in front of a callee in parentheses.
    | '(' :: inner => if word = [] then .parenthesis inner else .operand (ofWord word) rest
    | '.' :: ' ' :: inner => .marked .broadcast inner
    | ' ' :: '=' :: ' ' :: value => .assigned (ofWord word) value
    | rest => .operand (ofWord word) rest

/-- Whether an operand ends in front of a text. -/
def endsOperand : List Char → Bool
  | [] => true
  -- Behind a word these begin a directive and an assignment.
  | '.' :: ' ' :: _ | ' ' :: '=' :: _ => false
  | c :: _ => !isWordChar c

/-- Whether any form ends in front of a text, also one that argument lists could follow. -/
def endsForm : List Char → Bool
  | '(' :: _ | '.' :: _ => false
  | rest => endsOperand rest

theorem endsOperand_of_endsForm {rest : List Char} (ends : endsForm rest = true) :
    endsOperand rest = true := by
  unfold endsForm at ends
  split at ends
  · cases ends
  · cases ends
  · exact ends

/-- An operand ends in front of characters that are not part of a word. -/
theorem isWordChar_head_of_endsOperand {rest : List Char} (ends : endsOperand rest = true) :
    ∀ c ∈ rest.head?, isWordChar c = false := by
  unfold endsOperand at ends
  split at ends
  · simp
  · cases ends
  · cases ends
  · simpa using ends

/-- What stands between the members of a list, and what closes it. -/
structure Listing where
  separator : String
  closing : String

def argumentListing : Listing := ⟨", ", ")"⟩

def lineListing : Listing := ⟨"; ", " end"⟩

mutual

/-- What a text reads as from its start, and what is left of it then. -/
inductive Reads : List Char → Expr → List Char → Prop where
  | parenthesis (opened : opening text = .parenthesis start)
      (head : Reads start callee (')' :: middle)) (calls : ReadsCalls callee middle e rest) :
      Reads text e rest
  | block (opened : opening text = .block start)
      (inside : ReadsItems lineListing start lines rest) : Reads text (.block lines) rest
  | marked {inner : Expr} (opened : opening text = .marked tag start)
      (inside : Reads start inner rest) : Reads text (.marked tag inner) rest
  | assigned (opened : opening text = .assigned target start) (body : Reads start value rest) :
      Reads text (.assign target value) rest
  | operand (opened : opening text = .operand head start) (calls : ReadsCalls head start e rest) :
      Reads text e rest

/-- What comes of an expression by the argument lists that it is called with. -/
inductive ReadsCalls : Expr → List Char → Expr → List Char → Prop where
  | done (ends : endsForm rest = true) : ReadsCalls e rest e rest
  | call (inside : ReadsItems argumentListing start args middle)
      (calls : ReadsCalls (.call callee args) middle e rest) :
      ReadsCalls callee ('(' :: start) e rest
  | broadcast (inside : ReadsItems argumentListing start args middle)
      (calls : ReadsCalls (.call (.marked .broadcast callee) args) middle e rest) :
      ReadsCalls callee ('.' :: '(' :: start) e rest

/-- What a text reads as up to the end of a list. -/
inductive ReadsItems : Listing → List Char → List Expr → List Char → Prop where
  | none (closed : listing.closing.toList.isPrefixOf? text = some rest) :
      ReadsItems listing text [] rest
  | some (going : listing.closing.toList.isPrefixOf? text = none) (first : Reads text e middle)
      (others : ReadsMore listing middle es rest) : ReadsItems listing text (e :: es) rest

/-- What a text behind the first member of a list reads as. -/
inductive ReadsMore : Listing → List Char → List Expr → List Char → Prop where
  | none (closed : listing.closing.toList.isPrefixOf? text = some rest) :
      ReadsMore listing text [] rest
  | some (going : listing.closing.toList.isPrefixOf? text = none)
      (separated : listing.separator.toList.isPrefixOf? text = some start)
      (first : Reads start e middle) (others : ReadsMore listing middle es rest) :
      ReadsMore listing text (e :: es) rest

end

-- By induction on one of the readings. Each rule asks for an opening or a character that no other
-- rule admits, so the other reading ends with the same rule.
mutual

/-- A text reads as one expression at most. -/
theorem Reads.unique {text rest : List Char} {e : Expr} (one : Reads text e rest) :
    ∀ f after, Reads text f after → e = f ∧ rest = after := by
  match one with
  | .parenthesis opened head calls =>
      intro f after other
      cases other with
      | parenthesis openedAgain headAgain callsAgain =>
          cases opened.symm.trans openedAgain
          obtain ⟨rfl, same⟩ := head.unique _ _ headAgain
          cases same
          exact calls.unique _ _ callsAgain
      | _ openedAgain => cases opened.symm.trans openedAgain
  | .block opened inside =>
      intro f after other
      cases other with
      | block openedAgain insideAgain =>
          cases opened.symm.trans openedAgain
          obtain ⟨rfl, rfl⟩ := inside.unique _ _ insideAgain
          exact ⟨rfl, rfl⟩
      | _ openedAgain => cases opened.symm.trans openedAgain
  | .marked opened inside =>
      intro f after other
      cases other with
      | marked openedAgain insideAgain =>
          cases opened.symm.trans openedAgain
          obtain ⟨rfl, rfl⟩ := inside.unique _ _ insideAgain
          exact ⟨rfl, rfl⟩
      | _ openedAgain => cases opened.symm.trans openedAgain
  | .assigned opened body =>
      intro f after other
      cases other with
      | assigned openedAgain bodyAgain =>
          cases opened.symm.trans openedAgain
          obtain ⟨rfl, rfl⟩ := body.unique _ _ bodyAgain
          exact ⟨rfl, rfl⟩
      | _ openedAgain => cases opened.symm.trans openedAgain
  | .operand opened calls =>
      intro f after other
      cases other with
      | operand openedAgain callsAgain =>
          cases opened.symm.trans openedAgain
          exact calls.unique _ _ callsAgain
      | _ openedAgain => cases opened.symm.trans openedAgain
termination_by structural one

theorem ReadsCalls.unique {callee e : Expr} {text rest : List Char}
    (one : ReadsCalls callee text e rest) :
    ∀ f after, ReadsCalls callee text f after → e = f ∧ rest = after := by
  match one with
  | .done ends =>
      intro f after other
      cases other with
      | done => exact ⟨rfl, rfl⟩
      | call | broadcast => cases ends
  | .call inside calls =>
      intro f after other
      cases other with
      | done ends => cases ends
      | call insideAgain callsAgain =>
          obtain ⟨rfl, rfl⟩ := inside.unique _ _ insideAgain
          exact calls.unique _ _ callsAgain
  | .broadcast inside calls =>
      intro f after other
      cases other with
      | done ends => cases ends
      | broadcast insideAgain callsAgain =>
          obtain ⟨rfl, rfl⟩ := inside.unique _ _ insideAgain
          exact calls.unique _ _ callsAgain
termination_by structural one

theorem ReadsItems.unique {listing : Listing} {text rest : List Char} {es : List Expr}
    (one : ReadsItems listing text es rest) :
    ∀ fs after, ReadsItems listing text fs after → es = fs ∧ rest = after := by
  match one with
  | .none closed =>
      intro fs after other
      cases other with
      | none closedAgain =>
          cases closed.symm.trans closedAgain
          exact ⟨rfl, rfl⟩
      | some going => cases closed.symm.trans going
  | .some going first others =>
      intro fs after other
      cases other with
      | none closed => cases going.symm.trans closed
      | some _ firstAgain othersAgain =>
          obtain ⟨rfl, rfl⟩ := first.unique _ _ firstAgain
          obtain ⟨rfl, rfl⟩ := others.unique _ _ othersAgain
          exact ⟨rfl, rfl⟩
termination_by structural one

theorem ReadsMore.unique {listing : Listing} {text rest : List Char} {es : List Expr}
    (one : ReadsMore listing text es rest) :
    ∀ fs after, ReadsMore listing text fs after → es = fs ∧ rest = after := by
  match one with
  | .none closed =>
      intro fs after other
      cases other with
      | none closedAgain =>
          cases closed.symm.trans closedAgain
          exact ⟨rfl, rfl⟩
      | some going => cases closed.symm.trans going
  | .some going separated first others =>
      intro fs after other
      cases other with
      | none closed => cases going.symm.trans closed
      | some _ separatedAgain firstAgain othersAgain =>
          cases separated.symm.trans separatedAgain
          obtain ⟨rfl, rfl⟩ := first.unique _ _ firstAgain
          obtain ⟨rfl, rfl⟩ := others.unique _ _ othersAgain
          exact ⟨rfl, rfl⟩
termination_by structural one

end

/-- A word spells an operand: at the start of a rendering it means that operand and nothing else. -/
structure Spells (word : List Char) (e : Expr) : Prop where
  nonempty : word ≠ []
  letters : ∀ c ∈ word, isWordChar c = true
  notBegin : word ≠ "begin".toList
  notAside : word ≠ "@aside".toList
  spelled : ofWord word = e

variable {word rest : List Char} {e : Expr}

theorem takeWhile_word (letters : ∀ c ∈ word, isWordChar c = true)
    (ends : ∀ c ∈ rest.head?, isWordChar c = false) :
    (word ++ rest).takeWhile isWordChar = word := by
  rw [List.takeWhile_append_of_pos letters]
  cases rest with
  | nil => simp
  | cons c rest => simp [ends c rfl]

theorem dropWhile_word (letters : ∀ c ∈ word, isWordChar c = true)
    (ends : ∀ c ∈ rest.head?, isWordChar c = false) :
    (word ++ rest).dropWhile isWordChar = rest := by
  rw [List.dropWhile_append_of_pos letters]
  cases rest with
  | nil => simp
  | cons c rest => simp [ends c rfl]

theorem opening_operand (spells : Spells word e) (ends : endsOperand rest = true) :
    opening (word ++ rest) = .operand e rest := by
  have other := isWordChar_head_of_endsOperand ends
  rw [opening, takeWhile_word spells.letters other, dropWhile_word spells.letters other]
  simp only [spells.notBegin, spells.notAside, if_false, spells.spelled]
  split
  · simp [spells.nonempty]
  · cases ends
  · cases ends
  · rfl

theorem opening_assigned (spells : Spells word e) (rest : List Char) :
    opening (word ++ (" = ".toList ++ rest)) = .assigned e rest := by
  have other : ∀ c ∈ (" = ".toList ++ rest).head?, isWordChar c = false := by
    rintro _ ⟨⟩
    rfl
  rw [opening, takeWhile_word spells.letters other, dropWhile_word spells.letters other]
  simp only [spells.notBegin, spells.notAside, if_false]
  exact congrArg (Opening.assigned · rest) spells.spelled

theorem opening_parenthesis (rest : List Char) : opening ('(' :: rest) = .parenthesis rest :=
  rfl

theorem opening_begin (rest : List Char) : opening ("begin ".toList ++ rest) = .block rest :=
  rfl

theorem opening_spelling (tag : Tag) (rest : List Char) :
    opening (tag.spelling.toList ++ (' ' :: rest)) = .marked tag rest := by
  cases tag <;> rfl

/-- Whether nothing inside an expression is open to the right of it. -/
def isOperand : Expr → Bool
  | .name _ | .hole | .raw _ | .call _ _ => true
  | .assign _ _ | .block _ | .marked _ _ => false

/-- Whether a text starts like the rendering of an ordinary tree. -/
def startsForm : List Char → Bool
  | [] => false
  | c :: _ => c == '(' || isWordChar c

/-- The rendering of an expression reads as that expression, whatever text ends it. Where argument
lists may follow, they are read as those of the expression. -/
structure ReadsBack (e : Expr) : Prop where
  starts : ∀ rest, startsForm (e.render.toList ++ rest) = true
  whole : ∀ rest, endsForm rest = true → Reads (e.render.toList ++ rest) e rest
  callee : e.isOperand = true → ∀ rest f after, endsOperand rest = true →
    ReadsCalls e rest f after → Reads (e.render.toList ++ rest) f after

/-- One sees where a list of renderings goes on and where it is over. -/
structure Listing.Separates (listing : Listing) : Prop where
  ends : ∀ text, endsForm (listing.separator.toList ++ text) = true
  closes : ∀ text, endsForm (listing.closing.toList ++ text) = true
  apart : ∀ text, listing.closing.toList.isPrefixOf? (listing.separator.toList ++ text) = none
  outside : ∀ text, startsForm text = true → listing.closing.toList.isPrefixOf? text = none

theorem isPrefixOf?_eq_none_of_startsForm {c : Char} (closing : List Char)
    (other : startsForm [c] = false) {text : List Char} (starts : startsForm text = true) :
    (c :: closing).isPrefixOf? text = none := by
  cases text with
  | nil => rfl
  | cons d text =>
      have apart : c ≠ d := by
        intro same
        subst same
        exact Bool.false_ne_true (other.symm.trans starts)
      simp [List.isPrefixOf?, apart]

theorem separates_arguments : argumentListing.Separates where
  ends _ := rfl
  closes _ := rfl
  apart _ := rfl
  outside _ starts := isPrefixOf?_eq_none_of_startsForm _ rfl starts

theorem separates_lines : lineListing.Separates where
  ends _ := rfl
  closes _ := rfl
  apart _ := rfl
  outside _ starts := isPrefixOf?_eq_none_of_startsForm _ rfl starts

theorem isPrefixOf?_append (closing rest : List Char) :
    closing.isPrefixOf? (closing ++ rest) = some rest := by
  induction closing with
  | nil => cases rest <;> rfl
  | cons c closing ih => simp [List.isPrefixOf?, ih]

variable {listing : Listing}

/-- The rendering of what follows the first of several expressions. -/
def renderMore (listing : Listing) (es : List Expr) : List Char :=
  es.flatMap fun e => listing.separator.toList ++ e.render.toList

theorem renderMore_cons (listing : Listing) (e : Expr) (es : List Expr) :
    renderMore listing (e :: es) =
      listing.separator.toList ++ (e.render.toList ++ renderMore listing es) := by
  simp [renderMore]

theorem endsForm_renderMore (separates : listing.Separates) (es : List Expr) (rest : List Char) :
    endsForm (renderMore listing es ++ (listing.closing.toList ++ rest)) = true := by
  cases es with
  | nil => exact separates.closes rest
  | cons e es =>
      rw [renderMore_cons, List.append_assoc]
      exact separates.ends _

theorem readsMore_renderMore (separates : listing.Separates) (es : List Expr)
    (readsBack : ∀ e ∈ es, ReadsBack e) (rest : List Char) :
    ReadsMore listing (renderMore listing es ++ (listing.closing.toList ++ rest)) es rest := by
  induction es with
  | nil => exact .none (isPrefixOf?_append _ rest)
  | cons e es ih =>
      have first := (readsBack e List.mem_cons_self).whole _ (endsForm_renderMore separates es rest)
      have others := ih fun e member => readsBack e (List.mem_cons_of_mem _ member)
      rw [renderMore_cons, List.append_assoc, List.append_assoc]
      exact .some (separates.apart _) (isPrefixOf?_append _ _) first others

theorem toList_intercalate_cons (listing : Listing) (e : Expr) (es : List Expr) :
    (listing.separator.intercalate (renderAll (e :: es))).toList =
      e.render.toList ++ renderMore listing es := by
  induction es generalizing e with
  | nil => simp [renderAll, renderMore]
  | cons next es ih =>
      have others := ih next
      rw [renderAll] at others
      rw [renderAll, renderAll, String.intercalate_cons_cons, String.toList_append,
        String.toList_append, others, renderMore_cons, List.append_assoc]

theorem readsItems_intercalate (separates : listing.Separates) (es : List Expr)
    (readsBack : ∀ e ∈ es, ReadsBack e) (rest : List Char) :
    ReadsItems listing ((listing.separator.intercalate (renderAll es)).toList ++
      (listing.closing.toList ++ rest)) es rest := by
  cases es with
  | nil => exact .none (by simp [renderAll, isPrefixOf?_append])
  | cons e es =>
      have member := readsBack e List.mem_cons_self
      have first := member.whole _ (endsForm_renderMore separates es rest)
      have others := readsMore_renderMore separates es
        (fun e inside => readsBack e (List.mem_cons_of_mem _ inside)) rest
      rw [toList_intercalate_cons, List.append_assoc]
      exact .some (separates.outside _ (member.starts _)) first others

end Pipelines.Expr
