import Pipelines.Exchange.Storage
import Pipelines.Proofs.Exchange.Stable

namespace Pipelines.Exchange

/-!
# Texts that are cut off

No written tree is the beginning of another. If a tree is read from the beginning
of a written one, then it is read from all of it as well, and leaves the rest
behind. But reading a written tree leaves nothing behind, and this holds of the
trees that are too deep to be read, too: they are refused as a whole.
-/

theorem readTree_cut_writeExpr {e : Expr} {text missing : List Char}
    (cut : text ++ missing = writeExpr 0 e) (some : missing ≠ []) (other : Expr) :
    readTree text ≠ .ok other := by
  intro read
  obtain ⟨rest, read, -⟩ := readTree_eq_ok_iff.mp read
  have whole := (Reader.stable_expr nestingLimit).append read missing
  have reads := Reader.reads_expr e nestingLimit 0
  -- The whole text is read up to its end, or it is refused for its depth. Neither fits a tree that
  -- was read before the end.
  have complete := reads.run _ _ (reads.skipBlank_eq _ [] rfl)
  rw [List.append_nil, ← cut, whole] at complete
  cases fit : fits nestingLimit e.nesting e with
  | error cause =>
      rw [fit] at complete
      cases complete
  | ok tree =>
      rw [fit] at complete
      have nothing : rest ++ missing = [] := (Prod.mk.inj (Except.ok.inj complete)).2
      exact some (List.append_eq_nil_iff.mp nothing).2

theorem load_cut {e : Expr} {text missing : String} (cut : text ++ missing = writeTree e)
    (some : missing ≠ "") : ∃ cause, load text = .error (.generic cause) := by
  have characters : text.toList ++ missing.toList = writeExpr 0 e := by
    rw [← String.toList_append, cut, writeTree, String.toList_ofList]
  have left : missing.toList ≠ [] := fun none => some (String.toList_eq_nil_iff.mp none)
  rw [load]
  cases read : readTree text.toList with
  | error cause => exact ⟨cause.message, rfl⟩
  | ok other => exact absurd read (readTree_cut_writeExpr characters left other)

theorem toByteArray_of_fromUTF8 {bytes : ByteArray} {text : String}
    (decoded : String.fromUTF8? bytes = some text) : text.toByteArray = bytes := by
  unfold String.fromUTF8? at decoded
  split at decoded
  · cases decoded
    rfl
  · cases decoded

/-- A text whose bytes are the first bytes of another is the beginning of it. -/
theorem exists_append_of_toByteArray {text whole : String} {missing : ByteArray}
    (cut : text.toByteArray ++ missing = whole.toByteArray) : ∃ rest, text ++ rest = whole := by
  have encoded : text.toList.utf8Encode ++ missing = whole.toList.utf8Encode := by
    simpa only [← String.toByteArray_ofList, String.ofList_toList] using cut
  obtain ⟨rest, split⟩ := List.isPrefix_of_utf8Encode_append_eq_utf8Encode missing encoded
  refine ⟨.ofList rest, ?_⟩
  rw [← String.toList_inj, String.toList_append, String.toList_ofList, split]

/-- A written tree that is cut off at any character is never loaded, and neither is a stored one
that is cut off at any byte. -/
theorem load_truncated (e : Expr) :
    (∀ text missing : String, text ++ missing = writeTree e → missing ≠ "" →
      ∃ cause, load text = .error (.generic cause)) ∧
    ∀ content : String, Target.file.store e = .ok content →
      ∀ stored missing : ByteArray, stored ++ missing = content.toUTF8 → missing ≠ .empty →
        ∃ cause, (Source.bytes stored).load = .error (.generic cause) := by
  refine ⟨fun text missing cut some => load_cut cut some, ?_⟩
  intro content written stored missing cut some
  cases written
  simp only [Source.load, Source.content]
  cases decoded : String.fromUTF8? stored with
  | none => exact ⟨notText, rfl⟩
  | some text =>
      have bytes := toByteArray_of_fromUTF8 decoded
      subst bytes
      obtain ⟨rest, split⟩ := exists_append_of_toByteArray cut
      refine load_cut split fun nothing => some ?_
      rw [nothing, String.append_empty] at split
      rw [split] at cut
      exact (ByteArray.append_right_inj _).mp (cut.trans ByteArray.append_empty.symm)

/-- A cut inside an escape, and one inside the two bytes of a character. -/
theorem load_truncated_inside_characters :
    (∃ cause, load "\x7b\n  \"Opaque\": \x7b\n    \"payload\": \"\\u00" = .error (.generic cause)) ∧
    ∃ cause, (Source.bytes ("\x7b\n  \"Opaque\": \x7b\n    \"payload\": \"".toUTF8 ++
      ⟨#[0xC3]⟩)).load = .error (.generic cause) := by
  constructor
  · exact (load_truncated (.raw "\x01")).1 _ "01\"\n  \x7d\n\x7d" (by decide +kernel) (by decide)
  · exact (load_truncated (.raw "é")).2 _ rfl _ (⟨#[0xA9]⟩ ++ "\"\n  \x7d\n\x7d".toUTF8)
      (by decide +kernel) (by decide +kernel)

end Pipelines.Exchange
