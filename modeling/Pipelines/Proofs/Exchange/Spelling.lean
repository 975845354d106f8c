import Mathlib.Data.List.Basic
import Pipelines.Exchange.Form

namespace Pipelines.Exchange

def Blanks (text : List Char) : Prop :=
  ∀ c ∈ text, c ∈ [' ', '\t', '\n', '\r']

def HexDigit (value : Nat) (c : Char) : Prop :=
  value < 16 ∧ (c = Nat.digitChar value ∨ c = (Nat.digitChar value).toUpper)

instance (value : Nat) (c : Char) : Decidable (HexDigit value c) :=
  inferInstanceAs (Decidable (_ ∧ _))

/-- The four hexadecimal digits of a UTF-16 unit. -/
def UnitDigits (unit : Nat) (digits : List Char) : Prop :=
  ∃ values, List.Forall₂ HexDigit values digits ∧ values.length = 4 ∧
    unit = values.foldl (fun value digit => value * 16 + digit) 0

/-- What a letter behind a backslash stands for. -/
def escapeLetters : List (Char × Char) :=
  [('\"', '\"'), ('\\', '\\'), ('/', '/'), ('b', '\x08'), ('f', '\x0c'), ('n', '\n'), ('r', '\r'),
    ('t', '\t')]

def PlainChar (c : Char) : Prop :=
  c ≠ '\"' ∧ c ≠ '\\' ∧ 0x20 ≤ c.toNat

instance : DecidablePred PlainChar := fun _ => inferInstanceAs (Decidable (_ ∧ _ ∧ _))

inductive SpellsChar (c : Char) : List Char → Prop where
  | plain : PlainChar c → SpellsChar c [c]
  | letter {letter : Char} : (letter, c) ∈ escapeLetters → SpellsChar c ['\\', letter]
  | code {digits : List Char} : UnitDigits c.toNat digits → SpellsChar c ('\\' :: 'u' :: digits)
  /-- A character beyond the first 65536 takes a pair of surrogates. -/
  | pair {high low : List Char} : 0x10000 ≤ c.toNat →
      UnitDigits (0xD800 + (c.toNat - 0x10000) / 0x400) high →
      UnitDigits (0xDC00 + (c.toNat - 0x10000) % 0x400) low →
      SpellsChar c ('\\' :: 'u' :: (high ++ '\\' :: 'u' :: low))

def quoted (pieces : List (List Char)) : List Char :=
  '\"' :: (pieces.flatten ++ ['\"'])

def SpellsText (value : String) (text : List Char) : Prop :=
  ∃ pieces, List.Forall₂ SpellsChar value.toList pieces ∧ text = quoted pieces

/-- Entries with a comma between any two of them and blanks around each. -/
inductive Separated : List (List Char) → List Char → Prop where
  | last {before entry after : List Char} : Blanks before → Blanks after →
      Separated [entry] (before ++ (entry ++ after))
  | more {before entry after : List Char} {entries : List (List Char)} {text : List Char} :
      Blanks before → Blanks after → Separated entries text →
      Separated (entry :: entries) (before ++ (entry ++ (after ++ ',' :: text)))

inductive Bracketed (opening closing : Char) : List (List Char) → List Char → Prop where
  | empty {blanks : List Char} : Blanks blanks →
      Bracketed opening closing [] (opening :: (blanks ++ [closing]))
  | filled {entries : List (List Char)} {text : List Char} : Separated entries text →
      Bracketed opening closing entries (opening :: (text ++ [closing]))

def IsMember (key value text : List Char) : Prop :=
  ∃ before after, Blanks before ∧ Blanks after ∧
    text = key ++ (before ++ ':' :: (after ++ value))

/-- A piece of any valid text. Surrogates need not pair. -/
inductive IsTextPiece : List Char → Prop where
  | plain {c : Char} : PlainChar c → IsTextPiece [c]
  | letter {letter c : Char} : (letter, c) ∈ escapeLetters → IsTextPiece ['\\', letter]
  | code {unit : Nat} {digits : List Char} : UnitDigits unit digits →
      IsTextPiece ('\\' :: 'u' :: digits)

def IsText (text : List Char) : Prop :=
  ∃ pieces, (∀ piece ∈ pieces, IsTextPiece piece) ∧ text = quoted pieces

def Digits (text : List Char) : Prop :=
  text ≠ [] ∧ ∀ c ∈ text, c.isDigit = true

/-- The integer part of a number: a zero at its front stands alone. -/
def IsWhole (text : List Char) : Prop :=
  text = ['0'] ∨ Digits text ∧ text.head? ≠ some '0'

def IsFraction (text : List Char) : Prop :=
  text = [] ∨ ∃ digits, Digits digits ∧ text = '.' :: digits

def IsExponent (text : List Char) : Prop :=
  text = [] ∨ ∃ letter ∈ ['e', 'E'], ∃ sign ∈ [[], ['+'], ['-']], ∃ digits, Digits digits ∧
    text = letter :: (sign ++ digits)

def IsNumber (text : List Char) : Prop :=
  ∃ sign ∈ [[], ['-']], ∃ whole fraction exponent,
    IsWhole whole ∧ IsFraction fraction ∧ IsExponent exponent ∧
      text = sign ++ (whole ++ (fraction ++ exponent))

/-- A valid value of any kind and nesting. -/
inductive IsValue : List Char → Prop where
  | word {text : List Char} : text ∈ ["null".toList, "true".toList, "false".toList] → IsValue text
  | number {text : List Char} : IsNumber text → IsValue text
  | text {text : List Char} : IsText text → IsValue text
  | list {elements : List (List Char)} {text : List Char} :
      (∀ element ∈ elements, IsValue element) → Bracketed '[' ']' elements text → IsValue text
  | object {members : List (List Char × List Char)} {entries : List (List Char)}
      {text : List Char} :
      (∀ member ∈ members, IsText member.1) → (∀ member ∈ members, IsValue member.2) →
      List.Forall₂ (fun member => IsMember member.1 member.2) members entries →
      Bracketed '{' '}' entries text → IsValue text

/-- A member, given its key and the text of its value. -/
def SpellsMember (member : String × List Char) (text : List Char) : Prop :=
  ∃ key, SpellsText member.1 key ∧ IsMember key member.2 text

/-- A record, given its fields and the texts of their values: an array of them in their order, or an
object that has each of them once and may have members of other names. -/
inductive SpellsRecord (fields : List (String × List Char)) (text : List Char) : Prop where
  | array : Bracketed '[' ']' (fields.map Prod.snd) text → SpellsRecord fields text
  | object {members : List (String × List Char)} {entries : List (List Char)} :
      (members.filter fun member => member.1 ∈ fields.map Prod.fst).Perm fields →
      (∀ member ∈ members, member.1 ∉ fields.map Prod.fst → IsValue member.2) →
      List.Forall₂ SpellsMember members entries → Bracketed '{' '}' entries text →
      SpellsRecord fields text

def SpellsVariant (name : String) (contents text : List Char) : Prop :=
  ∃ entry, SpellsMember (name, contents) entry ∧ Bracketed '{' '}' [entry] text

inductive SpellsTag (tag : Tag) : Nat → List Char → Prop where
  | bare {text : List Char} : SpellsText (tagName tag) text → SpellsTag tag 0 text
  | withNull {text : List Char} : SpellsVariant (tagName tag) "null".toList text →
      SpellsTag tag 1 text

mutual

/-- A text that spells a tree, and how deep its brackets are nested. The texts alone say so, without
a reader. The brackets of values that are passed over do not count. -/
inductive Spells : Expr → Nat → List Char → Prop where
  | hole {text : List Char} : SpellsText "Placeholder" text → Spells .hole 0 text
  | holeWithNull {text : List Char} : SpellsVariant "Placeholder" "null".toList text →
      Spells .hole 1 text
  | name {x : String} {name record text : List Char} : SpellsText x name →
      SpellsRecord [("name", name)] record → SpellsVariant "Ident" record text →
      Spells (.name x) 2 text
  | raw {payload : String} {value record text : List Char} : SpellsText payload value →
      SpellsRecord [("payload", value)] record → SpellsVariant "Opaque" record text →
      Spells (.raw payload) 2 text
  | call {e : Expr} {es : List Expr} {depth depthArgs : Nat} {callee args record text : List Char} :
      Spells e depth callee → SpellsList es depthArgs args →
      SpellsRecord [("callee", callee), ("args", args)] record →
      SpellsVariant "Call" record text → Spells (.call e es) (2 + max depth depthArgs) text
  | assign {e e' : Expr} {depth depthValue : Nat} {target value record text : List Char} :
      Spells e depth target → Spells e' depthValue value →
      SpellsRecord [("target", target), ("value", value)] record →
      SpellsVariant "Assign" record text → Spells (.assign e e') (2 + max depth depthValue) text
  | block {es : List Expr} {depth : Nat} {lines record text : List Char} :
      SpellsList es depth lines → SpellsRecord [("lines", lines)] record →
      SpellsVariant "Group" record text → Spells (.block es) (2 + depth) text
  | marked {directive : Tag} {e : Expr} {depthTag depth : Nat}
      {tag inner record text : List Char} :
      SpellsTag directive depthTag tag → Spells e depth inner →
      SpellsRecord [("tag", tag), ("inner", inner)] record →
      SpellsVariant "Marker" record text →
      Spells (.marked directive e) (2 + max depthTag depth) text

inductive SpellsList : List Expr → Nat → List Char → Prop where
  | list {es : List Expr} {depth : Nat} {elements : List (List Char)} {text : List Char} :
      SpellsEach es depth elements → Bracketed '[' ']' elements text →
      SpellsList es (1 + depth) text

inductive SpellsEach : List Expr → Nat → List (List Char) → Prop where
  | nil : SpellsEach [] 0 []
  | cons {e : Expr} {es : List Expr} {depth depthOthers : Nat} {text : List Char}
      {texts : List (List Char)} : Spells e depth text → SpellsEach es depthOthers texts →
      SpellsEach (e :: es) (max depth depthOthers) (text :: texts)

end

/-- A text that spells a tree may have blanks around it. -/
def SpellsTree (e : Expr) (depth : Nat) (text : String) : Prop :=
  ∃ before spelled after, Blanks before ∧ Spells e depth spelled ∧ Blanks after ∧
    text.toList = before ++ (spelled ++ after)

end Pipelines.Exchange
