import Pipelines.Expr.Basic

namespace Pipelines

/-!
# Worlds

What an evaluation starts from and what it leaves: the values of names, and the
state of everything else. Two computations simulate each other if from alike
worlds they give the same value and leave alike worlds. Worlds are compared
without hidden names, and the first of them may have to keep a value under a
name.
-/

universe u

/-- The values of names, and the state that effects act on. -/
structure World (V S : Type u) where
  env : String → V
  effects : S

/-- What evaluation takes as given: opaque expressions, directives and application, which act on
values and on the state of effects alone, and the value of an empty block. -/
structure Interpretation (V S : Type u) where
  raw : String → S → V × S
  mark : Tag → V → S → V × S
  apply : V → List V → S → V × S
  empty : V

variable {V S α β : Type u}

namespace World

/-- Reads a name. -/
def read (x : String) : StateM (World V S) V :=
  fun world => (world.env x, world)

/-- Has an effect. -/
def act (effect : S → V × S) : StateM (World V S) V :=
  fun world => ((effect world.effects).1, { world with effects := (effect world.effects).2 })

/-- Stores a value under a name, if there is one. -/
def store (x? : Option String) (value : V) : StateM (World V S) PUnit :=
  fun world => (⟨⟩, { world with env := fun y => if x? = some y then value else world.env y })

theorem store_none (value : V) :
    (store none value : StateM (World V S) PUnit) = pure ⟨⟩ := by
  funext world
  simp only [store, reduceCtorEq, if_false]
  rfl

end World

/-- Worlds that differ in hidden names at most, of which the first holds a value under a name. -/
structure Alike (hidden : String → Prop) (held : Option (String × V)) (left right : World V S) :
    Prop where
  effects : left.effects = right.effects
  env : ∀ x, ¬ hidden x → left.env x = right.env x
  kept : ∀ x value, held = some (x, value) → left.env x = value

/-- Computations that give the same value and leave alike worlds when they start from such. The
first world may hold one value before and another after. -/
def Simulates (hidden : String → Prop) (before after : Option (String × V))
    (first second : StateM (World V S) α) : Prop :=
  ∀ left right, Alike hidden before left right →
    (first left).1 = (second right).1 ∧ Alike hidden after (first left).2 (second right).2

variable {hidden : String → Prop} {held before middle after : Option (String × V)}

theorem Alike.refl (hidden : String → Prop) (world : World V S) : Alike hidden none world world :=
  ⟨rfl, fun _ _ => rfl, fun _ _ none => by cases none⟩

theorem Alike.forget {left right : World V S} (alike : Alike hidden held left right) :
    Alike hidden none left right :=
  ⟨alike.effects, alike.env, fun _ _ none => by cases none⟩

namespace Simulates

theorem pure (value : α) :
    Simulates hidden held held (Pure.pure value : StateM (World V S) α) (Pure.pure value) :=
  fun _ _ alike => ⟨rfl, alike⟩

theorem bind {first second : StateM (World V S) α} {next other : α → StateM (World V S) β}
    (head : Simulates hidden before middle first second)
    (tail : ∀ value, Simulates hidden middle after (next value) (other value)) :
    Simulates hidden before after (first >>= next) (second >>= other) := by
  intro left right alike
  obtain ⟨same, between⟩ := head left right alike
  have rest := tail (first left).1 _ _ between
  have split : (second >>= other) right = other (first left).1 (second right).2 := by
    rw [same]
    rfl
  rw [split]
  exact rest

theorem trans {first second third : StateM (World V S) α} {fewer : String → Prop}
    (one : Simulates fewer none none first second) (other : Simulates hidden none none second third)
    (hides : ∀ y, fewer y → hidden y) : Simulates hidden none none first third := by
  intro left right alike
  obtain ⟨same, between⟩ := one left left (.refl fewer left)
  obtain ⟨again, behind⟩ := other left right alike
  refine ⟨same.trans again, between.effects.trans behind.effects, fun y visible => ?_,
    fun _ _ none => by cases none⟩
  exact (between.env y fun secret => visible (hides y secret)).trans (behind.env y visible)

theorem forget {first second : StateM (World V S) α}
    (simulates : Simulates hidden none none first second) :
    Simulates hidden before none first second :=
  fun left right alike => simulates left right alike.forget

theorem read {x : String} (visible : ¬ hidden x) :
    Simulates hidden held held (World.read x : StateM (World V S) V) (World.read x) :=
  fun _ _ alike => ⟨alike.env x visible, alike⟩

theorem read_held (x : String) (value : V) :
    Simulates hidden (some (x, value)) (some (x, value)) (World.read x : StateM (World V S) V)
      (Pure.pure value) :=
  fun _ _ alike => ⟨alike.kept x value rfl, alike⟩

/-- A value that is read in the second world is held in the first. -/
theorem read_then {x : String} {first : StateM (World V S) α} {other : V → StateM (World V S) α}
    (visible : ¬ hidden x) (next : ∀ value, Simulates hidden (some (x, value)) after first (other value)) :
    Simulates hidden none after first (World.read x >>= other) := by
  intro left right alike
  refine next (right.env x) left right ⟨alike.effects, alike.env, fun y value same => ?_⟩
  cases same
  exact alike.env x visible

theorem act (effect : S → V × S) :
    Simulates hidden held held (World.act effect : StateM (World V S) V) (World.act effect) := by
  intro left right alike
  simp only [World.act, alike.effects]
  exact ⟨trivial, rfl, alike.env, alike.kept⟩

theorem store {x? : Option String} (value : V)
    (other : ∀ x v, held = some (x, v) → x? ≠ some x) :
    Simulates hidden held held (World.store x? value : StateM (World V S) PUnit)
      (World.store x? value) := by
  intro left right alike
  refine ⟨rfl, alike.effects, fun y visible => ?_, fun y v kept => ?_⟩
  · simp only [World.store, alike.env y visible]
  · simp only [World.store, if_neg (other y v kept), alike.kept y v kept]

/-- What is stored under a name is held from then on. -/
theorem store_held (x : String) (value : V) :
    Simulates hidden before (some (x, value)) (World.store (some x) value : StateM (World V S) PUnit)
      (World.store (some x) value) := by
  intro left right alike
  refine ⟨rfl, alike.effects, fun y visible => ?_, fun y v kept => ?_⟩
  · simp only [World.store, alike.env y visible]
  · cases kept
    simp [World.store]

/-- Storing under a hidden name cannot be told from storing nothing. -/
theorem store_hidden {x : String} (invisible : hidden x) (value : V) :
    Simulates hidden before (some (x, value)) (World.store (some x) value : StateM (World V S) PUnit)
      (World.store none value) := by
  intro left right alike
  refine ⟨rfl, alike.effects, fun y visible => ?_, fun y v kept => ?_⟩
  · have other : x ≠ y := fun same => visible (same ▸ invisible)
    simp [World.store, other, alike.env y visible]
  · cases kept
    simp [World.store]

end Simulates

end Pipelines
