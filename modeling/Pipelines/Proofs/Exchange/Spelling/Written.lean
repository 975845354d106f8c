import Pipelines.Proofs.Exchange.Spelling.Tree

namespace Pipelines.Exchange

theorem letter_of_escaped {letter c : Char} (known : escaped? letter = some c) :
    (letter, c) ∈ escapeLetters := by
  unfold escaped? at known
  split at known
  case isTrue listed => cases known; rcases listed with rfl | rfl | rfl <;> decide
  split at known
  case isTrue same => cases known; cases same; decide
  split at known
  case isTrue same => cases known; cases same; decide
  split at known
  case isTrue same => cases known; cases same; decide
  split at known
  case isTrue same => cases known; cases same; decide
  split at known
  case isTrue same => cases known; cases same; decide
  cases known

theorem spellsChar_written (c : Char) : SpellsChar c (writtenChar c) := by
  rcases writtenChar_cases c with ⟨letter, written, known⟩ | ⟨control, written⟩ |
    ⟨notQuote, notBackslash, printable, written⟩
  · rw [written]
    exact .letter (letter_of_escaped known)
  · have small : c.toNat < 32 := by simpa [isControl] using control
    rw [written]
    refine .code ⟨[0, 0, c.toNat / 16, c.toNat % 16], ?_, rfl, ?_⟩
    · exact .cons (by decide) (.cons (by decide) (.cons ⟨by omega, .inl rfl⟩
        (.cons ⟨by omega, .inl rfl⟩ .nil)))
    · simp
      omega
  · rw [written]
    exact .plain ⟨notQuote, notBackslash, by simpa [isControl] using printable⟩

theorem spellsText_written (value : String) : SpellsText value (writeText value) := by
  refine ⟨value.toList.map writtenChar, ?_, by simp [quoted, writeText, List.flatMap_def]⟩
  generalize value.toList = cs
  induction cs with
  | nil => exact .nil
  | cons c cs ih => exact .cons (spellsChar_written c) ih

theorem blanks_newLine (depth : Nat) : Blanks (newLine depth) := by
  intro c member
  rcases List.mem_cons.mp member with rfl | spaces
  · decide
  · rw [List.eq_of_mem_replicate spaces]
    decide

theorem separated_written (first : List Char) (others : List (List Char)) {blanks : List Char}
    (blank : Blanks blanks) (depth : Nat) :
    Separated (first :: others) (blanks ++ (first ++
      (others.flatMap (fun other => ',' :: newLine (depth + 1) ++ other) ++ newLine depth))) := by
  induction others generalizing first blanks with
  | nil => exact .last blank (blanks_newLine depth)
  | cons other others ih =>
      have nothing : Blanks [] := nofun
      have following := ih other (blanks_newLine (depth + 1))
      have more : Separated (first :: other :: others) _ := .more blank nothing following
      simpa [List.flatMap_cons, List.append_assoc] using more

theorem bracketed_written (opening closing : Char) (depth : Nat) (entries : List (List Char)) :
    Bracketed opening closing entries (writeLines opening closing depth entries) := by
  cases entries with
  | nil =>
      have nothing : Blanks [] := nofun
      exact .empty nothing
  | cons first others =>
      have filled : Bracketed opening closing _ _ :=
        .filled (separated_written first others (blanks_newLine (depth + 1)) depth)
      simpa [writeLines, List.append_assoc] using filled

theorem spellsMember_written (member : String × List Char) :
    SpellsMember member (writeText member.1 ++ ':' :: ' ' :: member.2) :=
  ⟨_, spellsText_written member.1, [], [' '], nofun, by simp [Blanks], rfl⟩

theorem spellsMembers_written (members : List (String × List Char)) :
    List.Forall₂ SpellsMember members
      (members.map fun (key, value) => writeText key ++ ':' :: ' ' :: value) := by
  induction members with
  | nil => exact .nil
  | cons member members ih => exact .cons (spellsMember_written member) ih

theorem spellsRecord_written (depth : Nat) (fields : List (String × List Char)) :
    SpellsRecord fields (writeObject depth fields) := by
  refine .object ?_ ?_ (spellsMembers_written fields) (bracketed_written '{' '}' depth _)
  · rw [List.filter_eq_self.mpr fun field member => by simpa using ⟨_, member⟩]
  · exact fun field member other => absurd (List.mem_map_of_mem member) other

theorem spellsVariant_written (depth : Nat) (name : String) (fields : List (String × List Char)) :
    SpellsVariant name (writeObject (depth + 1) fields) (writeVariant depth name fields) :=
  ⟨_, spellsMember_written _, bracketed_written '{' '}' depth _⟩

mutual

theorem spells_written (e : Expr) (depth : Nat) : Spells e e.nesting (writeExpr depth e) := by
  cases e with
  | hole => exact .hole (spellsText_written _)
  | name x =>
      exact .name (spellsText_written x) (spellsRecord_written _ _) (spellsVariant_written _ _ _)
  | raw payload =>
      exact .raw (spellsText_written payload) (spellsRecord_written _ _)
        (spellsVariant_written _ _ _)
  | call callee args =>
      have call : Spells (.call callee args) _ _ :=
        .call (spells_written callee (depth + 2)) (spellsList_written args (depth + 2))
          (spellsRecord_written (depth + 1) _) (spellsVariant_written depth _ _)
      have same : 2 + max callee.nesting (1 + Expr.nestingOf args) =
          (Expr.call callee args).nesting := by
        simp only [Expr.nesting]
        omega
      rw [← same]
      exact call
  | assign target value =>
      exact .assign (spells_written target (depth + 2)) (spells_written value (depth + 2))
        (spellsRecord_written (depth + 1) _) (spellsVariant_written depth _ _)
  | block lines =>
      have block : Spells (.block lines) _ _ :=
        .block (spellsList_written lines (depth + 2)) (spellsRecord_written (depth + 1) _)
          (spellsVariant_written depth _ _)
      have same : 2 + (1 + Expr.nestingOf lines) = (Expr.block lines).nesting := by
        simp only [Expr.nesting]
        omega
      rw [← same]
      exact block
  | marked directive inner =>
      have marked : Spells (.marked directive inner) _ _ :=
        .marked (.bare (spellsText_written _)) (spells_written inner (depth + 2))
          (spellsRecord_written (depth + 1) _) (spellsVariant_written depth _ _)
      rw [Nat.zero_max] at marked
      exact marked

theorem spellsList_written (es : List Expr) (depth : Nat) :
    SpellsList es (1 + Expr.nestingOf es) (writeList depth (writeExprs (depth + 1) es)) :=
  .list (spellsEach_written es (depth + 1)) (bracketed_written '[' ']' depth _)

theorem spellsEach_written (es : List Expr) (depth : Nat) :
    SpellsEach es (Expr.nestingOf es) (writeExprs depth es) := by
  cases es with
  | nil => exact .nil
  | cons e es => exact .cons (spells_written e depth) (spellsEach_written es depth)

end

/-- The written form of a tree is one of its spellings, nested as deep as the tree says. So every tree
has a spelling. -/
theorem spellsTree_written (e : Expr) : SpellsTree e e.nesting (writeTree e) :=
  ⟨[], _, [], nofun, spells_written e 0, nofun, by simp [writeTree]⟩

end Pipelines.Exchange
