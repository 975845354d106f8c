import Mathlib.Data.Nat.Nth
import Pipelines.Proofs.Fresh
import Pipelines.Proofs.Nodes

namespace Pipelines.Supply

variable {stem : String} {roots : List Expr} {supply : Supply}

/-- A positive counter whose name is written nowhere in given trees. -/
def Unwritten (stem : String) (roots : List Expr) (counter : Nat) : Prop :=
  0 < counter ∧ .name (nameAt stem counter) ∉ Expr.nodesOf roots

instance : DecidablePred (Unwritten stem roots) :=
  fun _ => inferInstanceAs (Decidable (_ ∧ _))

theorem unwritten_iff {counter : Nat} :
    Unwritten stem roots counter ↔ 0 < counter ∧ nameAt stem counter ∉ Expr.namesOf roots := by
  rw [Unwritten, Expr.mem_namesOf_iff]

theorem unwritten_infinite (stem : String) (roots : List Expr) :
    {counter | Unwritten stem roots counter}.Infinite := by
  apply Set.infinite_of_forall_exists_gt
  intro counter
  obtain ⟨beyond, free⟩ := firstFree_spec stem (counter + 1) (Expr.namesOf roots)
  exact ⟨_, unwritten_iff.mpr ⟨by omega, free⟩, beyond⟩

theorem count_firstFree (stem : String) (roots : List Expr) (start : Nat) :
    Nat.count (Unwritten stem roots) (firstFree stem start (Expr.namesOf roots)) =
      Nat.count (Unwritten stem roots) start := by
  obtain ⟨distance, reached⟩ :=
    Nat.exists_eq_add_of_le (firstFree_spec stem start (Expr.namesOf roots)).1
  have passed : Nat.count (fun k => Unwritten stem roots (start + k)) distance = 0 := by
    apply Nat.count_of_forall_not
    intro k within unwritten
    have occupied : nameAt stem (start + k) ∈ Expr.namesOf roots :=
      firstFree_least (Nat.le_add_right start k) (by omega)
    exact (unwritten_iff.mp unwritten).2 occupied
  rw [reached, Nat.count_add, passed, Nat.add_zero]

/-- A supply for given trees that has drawn a number of names: so many counters up to the last one
that was used are free. -/
structure HasDrawn (stem : String) (roots : List Expr) (count : Nat) (supply : Supply) : Prop where
  ofStem : supply.stem = stem
  passing : supply.taken = Expr.namesOf roots
  counted : Nat.count (Unwritten stem roots) (supply.used + 1) = count

theorem hasDrawn_ofRoots (stem : String) (roots : List Expr) :
    HasDrawn stem roots 0 (ofRoots stem roots) where
  ofStem := rfl
  passing := rfl
  counted := by simp [ofRoots, Nat.count_succ, Unwritten]

theorem HasDrawn.next {count : Nat} (drawn : HasDrawn stem roots count supply) :
    supply.next.1 = nameAt stem (Nat.nth (Unwritten stem roots) count) ∧
      HasDrawn stem roots (count + 1) supply.next.2 := by
  obtain ⟨rfl, passing, counted⟩ := drawn
  obtain ⟨beyond, free⟩ := firstFree_spec supply.stem (supply.used + 1) supply.taken
  have unwritten : Unwritten supply.stem roots supply.next.2.used :=
    unwritten_iff.mpr ⟨Nat.lt_of_lt_of_le supply.used.succ_pos beyond, passing ▸ free⟩
  have before : Nat.count (Unwritten supply.stem roots) supply.next.2.used = count := by
    rw [← counted, Supply.next, passing]
    exact count_firstFree supply.stem roots (supply.used + 1)
  refine ⟨?_, rfl, passing, ?_⟩
  · rw [← before, Nat.nth_count unwritten]
    rfl
  · rw [Nat.count_succ, before, if_pos unwritten]

theorem HasDrawn.take {count : Nat} (drawn : HasDrawn stem roots count supply) (more : Nat) :
    (supply.take more).1 =
      (List.range' count more).map fun k => nameAt stem (Nat.nth (Unwritten stem roots) k) := by
  induction more generalizing count supply with
  | zero => rfl
  | succ more ih =>
      obtain ⟨named, behind⟩ := drawn.next
      rw [Supply.take, List.range'_succ, List.map_cons, ← named, ← ih behind]

/-- The search for a free name, one counter after the other. -/
inductive Finds (stem : String) (taken : List String) : Nat → Nat → Prop where
  | found {counter : Nat} (free : nameAt stem counter ∉ taken) : Finds stem taken counter counter
  | retry {start counter : Nat} (occupied : nameAt stem start ∈ taken)
      (behind : Finds stem taken (start + 1) counter) : Finds stem taken start counter

theorem finds_iff {taken : List String} {start counter : Nat} :
    Finds stem taken start counter ↔ firstFree stem start taken = counter := by
  rw [firstFree_eq_iff]
  constructor
  · intro finds
    induction finds with
    | found free => exact ⟨Nat.le_refl _, free, fun earlier behind before => by omega⟩
    | retry occupied _ ih =>
        obtain ⟨reached, free, passed⟩ := ih
        refine ⟨by omega, free, fun earlier behind before => ?_⟩
        rcases Nat.eq_or_lt_of_le behind with rfl | beyond
        · exact occupied
        · exact passed earlier beyond before
  · rintro ⟨reached, free, passed⟩
    obtain ⟨distance, rfl⟩ := Nat.exists_eq_add_of_le reached
    induction distance generalizing start with
    | zero => exact .found free
    | succ distance ih =>
        rw [Nat.add_comm distance, ← Nat.add_assoc] at free passed ⊢
        apply Finds.retry (passed start (Nat.le_refl _) (by omega))
        exact ih (by omega) free fun earlier behind => passed earlier (by omega)

/-- Draws one after the other, each of which adds the name that it hands out to the taken ones. -/
inductive Draws (stem : String) : Nat → List String → List String → Prop where
  | done {used : Nat} {taken : List String} : Draws stem used taken []
  | draw {used counter : Nat} {taken names : List String}
      (finds : Finds stem taken (used + 1) counter)
      (behind : Draws stem counter (nameAt stem counter :: taken) names) :
      Draws stem used taken (nameAt stem counter :: names)

theorem draws_cons_iff {used : Nat} {taken names : List String} {x : String} :
    Draws stem used taken (x :: names) ↔
      x = nameAt stem (firstFree stem (used + 1) taken) ∧
        Draws stem (firstFree stem (used + 1) taken)
          (nameAt stem (firstFree stem (used + 1) taken) :: taken) names := by
  constructor
  · intro draws
    cases draws with
    | draw finds behind =>
        cases finds_iff.mp finds
        exact ⟨rfl, behind⟩
  · rintro ⟨rfl, behind⟩
    exact .draw (finds_iff.mpr rfl) behind

theorem draws_iff (supply : Supply) {others names : List String}
    (same : ∀ counter, supply.used < counter →
      (nameAt supply.stem counter ∈ others ↔ nameAt supply.stem counter ∈ supply.taken)) :
    Draws supply.stem supply.used others names ↔ names = (supply.take names.length).1 := by
  induction names generalizing supply others with
  | nil => exact ⟨fun _ => rfl, fun _ => .done⟩
  | cons x names ih =>
      have counter : firstFree supply.stem (supply.used + 1) others = supply.next.2.used :=
        firstFree_congr same
      have beyond : supply.used < supply.next.2.used :=
        (firstFree_spec supply.stem (supply.used + 1) supply.taken).1
      have behind : Draws supply.stem supply.next.2.used
            (nameAt supply.stem supply.next.2.used :: others) names ↔
          names = (supply.next.2.take names.length).1 := by
        apply ih supply.next.2
        intro later after
        have other : nameAt supply.stem later ≠ nameAt supply.stem supply.next.2.used := by
          rw [Ne, nameAt_inj]
          omega
        change nameAt supply.stem later ∈ _ :: others ↔ nameAt supply.stem later ∈ supply.taken
        rw [List.mem_cons, or_iff_right other]
        exact same later (by omega)
      rw [draws_cons_iff, counter, behind, List.length_cons, Supply.take, List.cons.injEq]
      rfl

/-- The names that a supply draws are those of the free counters, of which there is no end: every one,
each once, and the least first. The search ends, also if every name that was handed out is remembered
as taken, and then it finds the same names. -/
theorem draws_unwritten_names_in_order (stem : String) (roots : List Expr) (count : Nat) :
    (take count (ofRoots stem roots)).1 =
        (List.range count).map (fun k => nameAt stem (Nat.nth (Unwritten stem roots) k)) ∧
      {counter | Unwritten stem roots counter}.Infinite ∧
      (take count (ofRoots stem roots)).1.Nodup ∧
      ∀ names, Draws stem 0 (Expr.namesOf roots) names ↔
        names = (take names.length (ofRoots stem roots)).1 := by
  have drawn := (hasDrawn_ofRoots stem roots).take count
  rw [← List.range_eq_range'] at drawn
  refine ⟨drawn, unwritten_infinite stem roots, ?distinct, ?remembered⟩
  case distinct =>
    rw [drawn]
    apply List.nodup_range.map
    intro one two same
    exact Nat.nth_injective (unwritten_infinite stem roots) (nameAt_inj.mp same)
  case remembered =>
    intro names
    exact draws_iff (ofRoots stem roots) fun _ _ => Iff.rfl

example : (take 2 (ofRoots "t" [.call (.name "f") [.name "t1", .name "t3"]])).1 = ["t2", "t4"] := by
  cbv

end Pipelines.Supply
