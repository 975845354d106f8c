import Pipelines.Proofs.Boundary
import Pipelines.Proofs.Fresh
import Pipelines.Proofs.Remaining
import Pipelines.Proofs.Targets

namespace Pipelines

variable {invocation : String}

/-- A tree that the name which fills its hole takes the place of: a hole, or a pipeline of nothing
but such a tree as its first argument. -/
inductive TakesName (invocation : String) : Expr → Prop where
  | hole : TakesName invocation .hole
  | seed (front : first.splice = [seed]) (alone : Expr.flatten rest = [])
      (inside : TakesName invocation seed) :
      TakesName invocation (.call (.name invocation) (first :: rest))

/-- A tree that comes down to a name, also if the holes in the place of callees are filled with the
name of pipelines. -/
inductive MayComeDownTo (invocation x : String) : Expr → Prop where
  | name : MayComeDownTo invocation x (.name x)
  | seed (head : callee = .name invocation ∨ callee = .hole) (single : Expr.flatten args = [seed])
      (inside : MayComeDownTo invocation x seed) : MayComeDownTo invocation x (.call callee args)

theorem ComesDownTo.may {x : String} {e : Expr} (down : ComesDownTo invocation x e) :
    MayComeDownTo invocation x e := by
  induction down with
  | name => exact .name
  | seed single _ ih => exact .seed (.inl rfl) single ih

theorem MayComeDownTo.mem_names {x : String} {e : Expr} (down : MayComeDownTo invocation x e) :
    x ∈ e.names := by
  induction down with
  | name => exact List.mem_singleton_self x
  | seed _ single _ ih =>
      refine List.mem_append_right _ ?_
      rw [← Expr.namesOf_flatten, single]
      exact List.mem_append_left _ ih

theorem TakesName.hasHole {e : Expr} (takes : TakesName invocation e) :
    e.hasHole invocation = true := by
  induction takes with
  | hole => rfl
  | seed front _ _ ih =>
      rw [Expr.hasHole_pipeline, Expr.firstHasHole, Expr.hasHole_eq_any_splice, front]
      simpa using ih

theorem Expr.fill_ne_hole (c : String) (e : Expr) : e.fill invocation (.name c) ≠ .hole := by
  intro filled
  have closed : (e.fill invocation (.name c)).hasHole invocation = _ := hasHole_fill (.name c) e
  rw [filled] at closed
  simp [hasHole] at closed

theorem TakesName.not_fill (c : String) (e : Expr) :
    ¬ TakesName invocation (e.fill invocation (.name c)) := by
  intro takes
  have closed := takes.hasHole
  rw [Expr.hasHole_fill, Expr.hasHole_name, Bool.and_false] at closed
  cases closed

/-- A filled tree comes down to a name that is not the name of pipelines only if the tree may do so
itself, or takes the name that fills it. -/
theorem MayComeDownTo.of_fill {x c : String} (other : x ≠ invocation) {e : Expr}
    (down : MayComeDownTo invocation x (e.fill invocation (.name c))) :
    MayComeDownTo invocation x e ∨ c = x ∧ TakesName invocation e := by
  generalize filled : e.fill invocation (.name c) = e' at down
  induction down generalizing e with
  | name =>
      cases e with
      | name y =>
          cases filled
          exact .inl .name
      | hole =>
          cases filled
          exact .inr ⟨rfl, .hole⟩
      | call callee args => simp only [Expr.fill] at filled; split at filled <;> cases filled
      | _ => cases filled
  | @seed callee' args' seed' head single inside ih =>
      cases e with
      | call callee args =>
          by_cases pipeline : callee.name? = some invocation
          · obtain rfl := Expr.name?_eq_some.mp pipeline
            rw [Expr.fill_pipeline] at filled
            cases filled
            cases args with
            | nil => cases single
            | cons first rest =>
                rw [Expr.fillFirst, Expr.flatten, Expr.splice_fill_name,
                  List.append_eq_singleton_iff] at single
                rcases single with ⟨empty, alone⟩ | ⟨front, alone⟩
                · have none : first.splice = [] := List.map_eq_nil_iff.mp empty
                  refine .inl (.seed (.inl rfl) ?_ inside)
                  rw [Expr.flatten, none, List.nil_append, alone]
                · obtain ⟨seed, seeded, rfl⟩ := List.map_eq_singleton_iff.mp front
                  rcases ih rfl with may | ⟨same, takes⟩
                  · refine .inl (.seed (.inl rfl) ?_ may)
                    rw [Expr.flatten, seeded, alone, List.append_nil]
                  · exact .inr ⟨same, .seed seeded alone takes⟩
          · rw [Expr.fill, if_neg pipeline] at filled
            cases filled
            rw [Expr.flatten_fillAll_name, List.map_eq_singleton_iff] at single
            obtain ⟨seed, single, rfl⟩ := single
            -- Only a hole turns into the name of pipelines, and then that name fills all holes.
            have opened : callee = .hole ∧ c = invocation := by
              rcases head with named | vacant
              · by_cases hole : callee = .hole
                · subst hole
                  simpa [Expr.fill] using named
                · rw [← Expr.name?_eq_some,
                    Expr.name?_fill _ (Expr.isHole_eq_false_iff.mpr hole)] at named
                  exact absurd named pipeline
              · exact absurd vacant (Expr.fill_ne_hole c callee)
            obtain ⟨rfl, rfl⟩ := opened
            rcases ih rfl with may | ⟨same, _⟩
            · exact .inl (.seed (.inr rfl) single may)
            · exact absurd same.symm other
      | hole => cases filled
      | _ => cases filled

end Pipelines
