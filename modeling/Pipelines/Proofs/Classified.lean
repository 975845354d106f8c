import Mathlib.Data.Set.Function
import Pipelines.Proofs.Threaded

namespace Pipelines.Step

variable {index : Nat} {e : Expr} {step : Step}

/-- A step that has the shape of its kind. -/
structure WellFormed (step : Step) : Prop where
  binding : step.binding.isSome = step.kind.isAssignment
  function : step.kind.isBroadcast = true → ∃ f, step.expr = .name f
  plain : step.kind = .plain →
    (∀ target value, step.expr ≠ .assign target value) ∧ ∀ tag inner, step.expr ≠ .marked tag inner
  /-- An assigned broadcast is of a kind of its own. -/
  assigned : step.kind = .assignPlain → ∀ inner, step.expr ≠ .marked .broadcast inner

theorem wellFormed_ofExpr (read : ofExpr index e = .ok step) : step.WellFormed := by
  have function := name_of_broadcast read
  unfold ofExpr at read
  split at read
  · cases read
    exact ⟨rfl, function, nofun, nofun⟩
  · obtain ⟨_, _, built⟩ := bind_eq_ok.mp read
    cases built
    exact ⟨rfl, function, nofun, nofun⟩
  · obtain ⟨_, _, built⟩ := bind_eq_ok.mp read
    cases built
    exact ⟨rfl, function, nofun, nofun⟩
  · rename_i unmarked
    cases read
    exact ⟨rfl, function, nofun, fun _ inner marked => unmarked inner marked⟩
  · cases read
  · rename_i noAside noBroadcast _ _ unassigned
    cases read
    refine ⟨rfl, function, fun _ => ⟨unassigned, fun tag inner marked => ?_⟩, nofun⟩
    cases tag with
    | aside => exact noAside inner marked
    | broadcast => exact noBroadcast inner marked

theorem ofExpr_of_plain (unassigned : ∀ target value, e ≠ .assign target value)
    (unmarked : ∀ tag inner, e ≠ .marked tag inner) :
    ofExpr index e = .ok ⟨index, .plain, none, e⟩ := by
  cases e with
  | assign target value => exact absurd rfl (unassigned target value)
  | marked tag inner => exact absurd rfl (unmarked tag inner)
  | _ => rfl

theorem ofExpr_assign (y : String) {value : Expr}
    (unmarked : ∀ inner, value ≠ .marked .broadcast inner) :
    ofExpr index (.assign (.name y) value) = .ok ⟨index, .assignPlain, some y, value⟩ := by
  cases value with
  | marked tag inner =>
      cases tag with
      | aside => rfl
      | broadcast => exact absurd rfl (unmarked inner)
  | _ => rfl

theorem ofExpr_toExpr (formed : step.WellFormed) : ofExpr step.index step.toExpr = .ok step := by
  obtain ⟨index, kind, binding, expr⟩ := step
  obtain ⟨bound, function, plain, assigned⟩ := formed
  cases kind with
  | plain =>
      cases binding with
      | some y => cases bound
      | none => exact ofExpr_of_plain (plain rfl).1 (plain rfl).2
  | assignPlain =>
      cases binding with
      | none => cases bound
      | some y => exact ofExpr_assign y (assigned rfl)
  | aside =>
      cases binding with
      | some y => cases bound
      | none => rfl
  | broadcast =>
      obtain ⟨f, rfl⟩ := function rfl
      cases binding with
      | some y => cases bound
      | none => rfl
  | assignBroadcast =>
      obtain ⟨f, rfl⟩ := function rfl
      cases binding with
      | none => cases bound
      | some y => rfl

/-- An expression is read as the well-formed step of the position that leads back to it. -/
theorem ofExpr_eq_ok_iff_toExpr :
    ofExpr index e = .ok step ↔ (step.index = index ∧ step.WellFormed) ∧ step.toExpr = e := by
  constructor
  · intro read
    exact ⟨⟨index_ofExpr read, wellFormed_ofExpr read⟩, toExpr_ofExpr read⟩
  · intro parts
    obtain ⟨⟨rfl, formed⟩, rfl⟩ := parts
    exact ofExpr_toExpr formed

/-- Reading expressions as steps of a position is a bijection from those that are accepted onto the
well-formed steps of that position, with `toExpr` as its inverse. Any other expression is refused. -/
theorem ofExpr_bijOn (index : Nat) :
    Set.BijOn (ofExpr index) {e | ∃ step, ofExpr index e = .ok step}
        (Except.ok '' {step | step.index = index ∧ step.WellFormed}) ∧
      (∀ e step, ofExpr index e = .ok step ↔
        (step.index = index ∧ step.WellFormed) ∧ step.toExpr = e) ∧
      (∀ e, (∃ cause, ofExpr index e = .error cause) ↔
        ∀ step : Step, step.index = index ∧ step.WellFormed → step.toExpr ≠ e) ∧
      ∀ y e, toExpr ⟨index, .plain, none, e⟩ = e ∧
        toExpr ⟨index, .assignPlain, some y, e⟩ = .assign (.name y) e ∧
        toExpr ⟨index, .aside, none, e⟩ = .marked .aside e ∧
        toExpr ⟨index, .broadcast, none, e⟩ = .marked .broadcast e ∧
        toExpr ⟨index, .assignBroadcast, some y, e⟩ = .assign (.name y) (.marked .broadcast e) := by
  refine ⟨⟨?maps, ?injective, ?onto⟩, fun e step => ofExpr_eq_ok_iff_toExpr, fun e => ?refused,
    fun y e => ⟨rfl, rfl, rfl, rfl, rfl⟩⟩
  case maps =>
    intro e accepted
    obtain ⟨step, read⟩ := accepted
    exact ⟨step, (ofExpr_eq_ok_iff_toExpr.mp read).1, read.symm⟩
  case injective =>
    intro e accepted other _ same
    obtain ⟨step, read⟩ := accepted
    have readOther : ofExpr index other = .ok step := same.symm.trans read
    exact (toExpr_ofExpr read).symm.trans (toExpr_ofExpr readOther)
  case onto =>
    intro outcome formed
    obtain ⟨step, formed, rfl⟩ := formed
    have read : ofExpr index step.toExpr = .ok step := ofExpr_eq_ok_iff_toExpr.mpr ⟨formed, rfl⟩
    exact ⟨step.toExpr, ⟨step, read⟩, read⟩
  case refused =>
    cases outcome : ofExpr index e with
    | error cause =>
        refine iff_of_true ⟨cause, rfl⟩ fun step formed same => ?_
        rw [ofExpr_eq_ok_iff_toExpr.mpr ⟨formed, same⟩] at outcome
        cases outcome
    | ok step =>
        obtain ⟨formed, same⟩ := ofExpr_eq_ok_iff_toExpr.mp outcome
        exact iff_of_false nofun fun none => none step formed same

/-- `z = @. abs` is one step and the only way to write it, and `z = @. _` is none. -/
theorem ofExpr_bijOn_of_assigned_broadcasts :
    ofExpr 3 (.assign (.name "z") (.marked .broadcast (.name "abs"))) =
      .ok ⟨3, .assignBroadcast, some "z", .name "abs"⟩ ∧
    ∀ step : Step, step.index = 3 ∧ step.WellFormed →
      step.toExpr ≠ .assign (.name "z") (.marked .broadcast .hole) := by
  obtain ⟨_, reads, refuses, _⟩ := ofExpr_bijOn 3
  have formed : WellFormed ⟨3, .assignBroadcast, some "z", .name "abs"⟩ :=
    ⟨rfl, fun _ => ⟨"abs", rfl⟩, nofun, nofun⟩
  exact ⟨(reads _ _).mpr ⟨⟨rfl, formed⟩, rfl⟩, (refuses _).mp ⟨_, rfl⟩⟩

end Pipelines.Step
