import Pipelines.Expr.Basic

namespace Pipelines

/-!
# Fresh names

Synthesised names are a fixed stem followed by a counter. A supply passes over
every counter whose name is written somewhere in the trees it was made for, so
no synthesised name meets a written one.
-/

structure Supply where
  stem : String
  /-- The last counter that was used. -/
  used : Nat
  /-- The names that are written in the trees. -/
  taken : List String
deriving DecidableEq

namespace Supply

def ofRoots (stem : String) (roots : List Expr) : Supply :=
  ⟨stem, 0, Expr.namesOf roots⟩

def nameAt (stem : String) (counter : Nat) : String :=
  stem ++ toString counter

/-- The least counter from `start` on whose name is not taken. A name that turns out to be taken
cannot come up again, so it is dropped from the list, which bounds the search. -/
def firstFree (stem : String) (start : Nat) (taken : List String) : Nat :=
  if nameAt stem start ∈ taken then
    firstFree stem (start + 1) (taken.erase (nameAt stem start))
  else start
termination_by taken.length
decreasing_by
  rename_i occupied
  have positive := List.length_pos_of_mem occupied
  rw [List.length_erase_of_mem occupied]
  omega

def next (supply : Supply) : String × Supply :=
  let counter := firstFree supply.stem (supply.used + 1) supply.taken
  (nameAt supply.stem counter, { supply with used := counter })

def take : Nat → Supply → List String × Supply
  | 0, supply => ([], supply)
  | count + 1, supply =>
      let (name, supply) := supply.next
      let (names, supply) := take count supply
      (name :: names, supply)

end Supply

end Pipelines
