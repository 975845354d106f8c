import Pipelines.Proofs.Remaining

namespace Pipelines

variable {invocation : String} {supply : Supply}

/-- Why an expression is no step at a position. -/
inductive IllFormed (index : Nat) : Expr → Error → Prop where
  | target {target : Expr} (unnamed : target.name? = none) (value : Expr) :
      IllFormed index (.assign target value) (.ambiguousTarget index target.render)
  | broadcast {inner : Expr} (unnamed : inner.name? = none) :
      IllFormed index (.marked .broadcast inner) (.malformedMarker index inner.render)
  | assignedBroadcast {inner : Expr} (y : String) (unnamed : inner.name? = none) :
      IllFormed index (.assign (.name y) (.marked .broadcast inner))
        (.malformedMarker index inner.render)

/-- An expression that is a step at every position. -/
def Expr.WellFormed (e : Expr) : Prop :=
  ∀ index cause, ¬ IllFormed index e cause

theorem IllFormed.not_wellFormed {index : Nat} {e : Expr} {cause : Error}
    (ill : IllFormed index e cause) : ¬ e.WellFormed :=
  fun formed => formed index cause ill

theorem IllFormed.at {index : Nat} {e : Expr} {cause : Error} (ill : IllFormed index e cause)
    (other : Nat) : ∃ cause', IllFormed other e cause' := by
  cases ill with
  | target unnamed value => exact ⟨_, .target unnamed value⟩
  | broadcast unnamed => exact ⟨_, .broadcast unnamed⟩
  | assignedBroadcast y unnamed => exact ⟨_, .assignedBroadcast y unnamed⟩

theorem Step.broadcastFunction_eq_error_iff {index : Nat} {inner : Expr} {build : Expr → Step}
    {cause : Error} :
    (do let function ← broadcastFunction index inner; return build function) = .error cause ↔
      inner.name? = none ∧ cause = .malformedMarker index inner.render := by
  cases inner <;>
    simp [broadcastFunction, Expr.name?, bind, Except.bind, pure, Except.pure, eq_comm]

theorem Step.ofExpr_eq_error_iff {index : Nat} {e : Expr} {cause : Error} :
    Step.ofExpr index e = .error cause ↔ IllFormed index e cause := by
  constructor
  · intro refused
    unfold Step.ofExpr at refused
    split at refused
    · cases refused
    · obtain ⟨unnamed, rfl⟩ := broadcastFunction_eq_error_iff.mp refused
      exact .broadcast unnamed
    · obtain ⟨unnamed, rfl⟩ := broadcastFunction_eq_error_iff.mp refused
      exact .assignedBroadcast _ unnamed
    · cases refused
    · rename_i target value _ named
      cases refused
      cases target with
      | name y => exact absurd rfl (named y)
      | _ => exact .target rfl value
    · cases refused
  · intro ill
    cases ill with
    | @target target unnamed value =>
        cases target with
        | name y => cases unnamed
        | _ => rfl
    | broadcast unnamed => exact broadcastFunction_eq_error_iff.mpr ⟨unnamed, rfl⟩
    | assignedBroadcast y unnamed => exact broadcastFunction_eq_error_iff.mpr ⟨unnamed, rfl⟩

theorem Step.ofExpr_eq_ok_iff (index : Nat) (e : Expr) :
    (∃ step, Step.ofExpr index e = .ok step) ↔ e.WellFormed := by
  constructor
  · intro accepted other cause ill
    obtain ⟨step, read⟩ := accepted
    obtain ⟨cause', here⟩ := ill.at index
    rw [Step.ofExpr_eq_error_iff.mpr here] at read
    cases read
  · intro formed
    cases read : Step.ofExpr index e with
    | error cause => exact absurd formed (Step.ofExpr_eq_error_iff.mp read).not_wellFormed
    | ok step => exact ⟨step, rfl⟩

/-- The first of several expressions that is ill-formed, where they are numbered from a position
on. -/
def FirstIllFormed (index : Nat) (es : List Expr) (cause : Error) : Prop :=
  ∃ before e after, es = before ++ e :: after ∧ (∀ earlier ∈ before, earlier.WellFormed) ∧
    IllFormed (index + before.length) e cause

theorem firstIllFormed_cons {index : Nat} {e : Expr} {es : List Expr} {cause : Error} :
    FirstIllFormed index (e :: es) cause ↔
      IllFormed index e cause ∨ e.WellFormed ∧ FirstIllFormed (index + 1) es cause := by
  constructor
  · intro first
    obtain ⟨before, found, after, split, formed, ill⟩ := first
    cases before with
    | nil =>
        cases split
        exact .inl ill
    | cons first before =>
        cases split
        obtain ⟨head, tail⟩ := List.forall_mem_cons.mp formed
        refine .inr ⟨head, before, found, after, rfl, tail, ?_⟩
        rwa [Nat.add_assoc, Nat.add_comm 1]
  · intro parts
    rcases parts with ill | ⟨head, before, found, after, rfl, tail, ill⟩
    · exact ⟨[], e, es, rfl, by simp, ill⟩
    · refine ⟨e :: before, found, after, rfl, List.forall_mem_cons.mpr ⟨head, tail⟩, ?_⟩
      rwa [List.length_cons, Nat.add_comm before.length, ← Nat.add_assoc]

theorem Step.ofExprs_eq_error_iff {index : Nat} {es : List Expr} {cause : Error} :
    Step.ofExprs index es = .error cause ↔ FirstIllFormed index es cause := by
  induction es generalizing index with
  | nil => simp [Step.ofExprs, FirstIllFormed]
  | cons e es ih =>
      rw [Step.ofExprs, bind_eq_error, firstIllFormed_cons, Step.ofExpr_eq_error_iff,
        ← Step.ofExpr_eq_ok_iff index e, ← ih]
      simp [bind_eq_error, pure, Except.pure]

theorem Step.ofExprs_eq_ok_iff (index : Nat) (es : List Expr) :
    (∃ steps, Step.ofExprs index es = .ok steps) ↔ ∀ e ∈ es, e.WellFormed := by
  induction es generalizing index with
  | nil => simp [Step.ofExprs]
  | cons e es ih =>
      rw [List.forall_mem_cons, ← Step.ofExpr_eq_ok_iff index e, ← ih (index + 1)]
      constructor
      · intro accepted
        obtain ⟨_, read⟩ := accepted
        obtain ⟨step, steps, head, tail, rfl⟩ := Step.ofExprs_cons_eq_ok.mp read
        exact ⟨⟨step, head⟩, steps, tail⟩
      · intro parts
        obtain ⟨⟨step, head⟩, steps, tail⟩ := parts
        exact ⟨_, Step.ofExprs_cons_eq_ok.mpr ⟨step, steps, head, tail, rfl⟩⟩

/-- A directive, which has nothing to act on in the place of the seed. -/
def Expr.isDirective : Expr → Bool
  | .marked _ _ => true
  | .assign _ (.marked .broadcast _) => true
  | _ => false

theorem Step.isDirective_ofExpr {index : Nat} {e : Expr} {step : Step}
    (read : Step.ofExpr index e = .ok step) :
    e.isDirective = true ↔ step.kind ≠ .plain ∧ step.kind ≠ .assignPlain := by
  unfold Step.ofExpr at read
  split at read
  · cases read
    simp [Expr.isDirective]
  · obtain ⟨function, _, built⟩ := bind_eq_ok.mp read
    cases built
    simp [Expr.isDirective]
  · obtain ⟨function, _, built⟩ := bind_eq_ok.mp read
    cases built
    simp [Expr.isDirective]
  · cases read
    unfold Expr.isDirective
    split <;> simp_all
  · cases read
  · rename_i noAside noBroadcast _ _ unassigned
    cases read
    cases e with
    | marked tag inner =>
        cases tag with
        | aside => exact absurd rfl (noAside inner)
        | broadcast => exact absurd rfl (noBroadcast inner)
    | assign target value => exact absurd rfl (unassigned target value)
    | _ => simp [Expr.isDirective]

theorem nameSeed_eq_error_iff {seed : Expr} {cause : Error} :
    nameSeed seed supply = .error cause ↔
      IllFormed 0 seed cause ∨
        seed.WellFormed ∧ seed.isDirective = true ∧ cause = .markerAsSeed 0 seed.render := by
  rw [nameSeed, bind_eq_error, Step.ofExpr_eq_error_iff, ← Step.ofExpr_eq_ok_iff 0 seed]
  refine or_congr Iff.rfl ?_
  constructor
  · intro parts
    obtain ⟨step, read, refused⟩ := parts
    have directive := Step.isDirective_ofExpr read
    refine ⟨⟨step, read⟩, ?_⟩
    split at refused <;> cases refused
    all_goals simp [*]
  · intro parts
    obtain ⟨⟨step, read⟩, directive, rfl⟩ := parts
    refine ⟨step, read, ?_⟩
    obtain ⟨loaded, unassigned⟩ := (Step.isDirective_ofExpr read).mp directive
    cases kind : step.kind with
    | plain => exact absurd kind loaded
    | assignPlain => exact absurd kind unassigned
    | _ => rfl

/-- Why a pipeline of flattened expressions is refused. -/
inductive Refused : List Expr → Error → Prop where
  | seedless : Refused [] .emptySeed
  | step (seed : Expr) (first : FirstIllFormed 1 steps cause) : Refused (seed :: steps) cause
  | seed (some : steps ≠ []) (formed : ∀ e ∈ steps, e.WellFormed) (ill : IllFormed 0 seed cause) :
      Refused (seed :: steps) cause
  | directive (some : steps ≠ []) (formed : ∀ e ∈ steps, e.WellFormed)
      (seedFormed : seed.WellFormed) (directive : seed.isDirective = true) :
      Refused (seed :: steps) (.markerAsSeed 0 seed.render)

theorem thread_eq_error_iff {seed : Expr} {steps : List Step} {cause : Error} :
    thread invocation seed steps supply = .error cause ↔
      steps ≠ [] ∧ nameSeed seed supply = .error cause := by
  cases steps with
  | nil => simp [thread]
  | cons step steps => simp [thread, bind_eq_error, pure, Except.pure]

theorem Pipeline.ofArguments_eq_error_iff {args : List Expr} {cause : Error} :
    Pipeline.ofArguments args = .error cause ↔
      Expr.flatten args = [] ∧ cause = .emptySeed ∨
        ∃ seed steps, Expr.flatten args = seed :: steps ∧ FirstIllFormed 1 steps cause := by
  rw [Pipeline.ofArguments]
  cases Expr.flatten args with
  | nil => simp [eq_comm]
  | cons seed steps =>
      rw [bind_eq_error, Step.ofExprs_eq_error_iff]
      simp only [List.cons.injEq, reduceCtorEq, false_and, false_or]
      constructor
      · intro parts
        rcases parts with first | ⟨_, _, built⟩
        · exact ⟨seed, steps, ⟨rfl, rfl⟩, first⟩
        · cases built
      · intro parts
        obtain ⟨_, _, ⟨rfl, rfl⟩, first⟩ := parts
        exact .inl first

/-- The seed of a pipeline with steps is looked at when all of the steps are well-formed. -/
theorem Pipeline.exists_seed_iff (args : List Expr) (P : Expr → Prop) :
    (∃ pipeline, Pipeline.ofArguments args = .ok pipeline ∧ pipeline.steps ≠ [] ∧
        P pipeline.seed) ↔
      ∃ seed steps, Expr.flatten args = seed :: steps ∧ steps ≠ [] ∧
        (∀ e ∈ steps, e.WellFormed) ∧ P seed := by
  constructor
  · intro parts
    obtain ⟨pipeline, read, some, holds⟩ := parts
    obtain ⟨steps, split, follow⟩ := Pipeline.ofArguments_eq_ok.mp read
    have more : steps ≠ [] := by
      intro none
      rw [none] at follow
      exact some (Except.ok.inj follow).symm
    exact ⟨pipeline.seed, steps, split, more, (Step.ofExprs_eq_ok_iff 1 steps).mp ⟨_, follow⟩,
      holds⟩
  · intro parts
    obtain ⟨seed, es, split, some, formed, holds⟩ := parts
    obtain ⟨steps, follow⟩ := (Step.ofExprs_eq_ok_iff 1 es).mpr formed
    refine ⟨⟨seed, steps⟩, Pipeline.ofArguments_eq_ok.mpr ⟨es, split, follow⟩, ?_, holds⟩
    intro none
    cases none
    exact some (Step.ofExprs_eq_nil follow)

theorem IllFormed.ne_emptySeed {index : Nat} {e : Expr} {cause : Error}
    (ill : IllFormed index e cause) : cause ≠ .emptySeed := by
  cases ill <;> simp

theorem refused_emptySeed_iff {es : List Expr} : Refused es .emptySeed ↔ es = [] := by
  constructor
  · intro refused
    cases refused with
    | seedless => rfl
    | step seed first =>
        obtain ⟨_, _, _, _, _, ill⟩ := first
        exact absurd rfl ill.ne_emptySeed
    | seed _ _ ill => exact absurd rfl ill.ne_emptySeed
  · intro none
    rw [none]
    exact .seedless

/-- The flattened arguments decide whether a pipeline is refused, and why. -/
theorem threadArguments_eq_error_iff {args : List Expr} {cause : Error} :
    threadArguments invocation args supply = .error cause ↔
      Refused (Expr.flatten args) cause := by
  have phases : threadArguments invocation args supply = .error cause ↔
      Pipeline.ofArguments args = .error cause ∨
        ∃ pipeline, Pipeline.ofArguments args = .ok pipeline ∧ pipeline.steps ≠ [] ∧
          nameSeed pipeline.seed supply = .error cause := by
    simp [threadArguments, Pipeline.thread, bind_eq_error, thread_eq_error_iff, pure, Except.pure]
  rw [phases, Pipeline.ofArguments_eq_error_iff,
    Pipeline.exists_seed_iff args (nameSeed · supply = .error cause)]
  simp only [nameSeed_eq_error_iff]
  constructor
  · intro parts
    rcases parts with (⟨none, rfl⟩ | ⟨seed, steps, split, first⟩) |
      ⟨seed, steps, split, some, formed, ill | ⟨seedFormed, directive, rfl⟩⟩
    · exact none ▸ .seedless
    · exact split ▸ .step seed first
    · exact split ▸ .seed some formed ill
    · exact split ▸ .directive some formed seedFormed directive
  · generalize Expr.flatten args = es
    intro refused
    cases refused with
    | seedless => exact .inl (.inl ⟨rfl, rfl⟩)
    | step seed first => exact .inl (.inr ⟨seed, _, rfl, first⟩)
    | seed some formed ill => exact .inr ⟨_, _, rfl, some, formed, .inl ill⟩
    | directive some formed seedFormed directive =>
        exact .inr ⟨_, _, rfl, some, formed, .inr ⟨seedFormed, directive, rfl⟩⟩

namespace Config

/-- A pipeline fails exactly for the reason for which it is refused, and succeeds if there is none.
A seed alone is the result, whatever its shape. -/
theorem threadInvocation_fails_iff_refused (config : Config) (args : List Expr) :
    (∀ cause, (config.threadInvocation args).outcome = .error cause ↔
        Refused (Expr.flatten args) cause) ∧
      ((∃ threaded, (config.threadInvocation args).outcome = .ok threaded) ↔
        ∀ cause, ¬ Refused (Expr.flatten args) cause) ∧
      ∀ seed, Expr.flatten args = [seed] →
        (config.threadInvocation args).outcome = .ok ⟨[], seed⟩ := by
  have fails : ∀ cause, (config.threadInvocation args).outcome = .error cause ↔
      Refused (Expr.flatten args) cause := fun cause =>
    outcome_threadInvocation_eq_error.trans threadArguments_eq_error_iff
  refine ⟨fails, ?_, ?_⟩
  · simp only [← fails]
    cases (config.threadInvocation args).outcome <;> simp
  · intro seed single
    exact outcome_threadInvocation.mpr ⟨_, _, threadArguments_single single⟩

/-- The seed `@aside x`, the destructuring of step 2 and the broadcast of step 3 are all at fault,
and step 2 is reported. -/
theorem threadInvocation_fails_at_first_of_several_faults :
    (threadInvocation {} [.block [.marked .aside (.name "x"), .name "f"],
        .block [.assign (.call (.name "tuple") [.name "a", .name "b"]) (.name "g"),
          .marked .broadcast (.call (.name "h") [])]]).outcome =
      .error (.ambiguousTarget 2 "tuple(a, b)") ∧
    Refused [.marked .aside (.name "x"), .name "f",
        .assign (.call (.name "tuple") [.name "a", .name "b"]) (.name "g"),
        .marked .broadcast (.call (.name "h") [])]
      (.ambiguousTarget 2 "tuple(a, b)") := by
  have failed : (threadInvocation {} [.block [.marked .aside (.name "x"), .name "f"],
        .block [.assign (.call (.name "tuple") [.name "a", .name "b"]) (.name "g"),
          .marked .broadcast (.call (.name "h") [])]]).outcome =
      .error (.ambiguousTarget 2 "tuple(a, b)") := by cbv
  exact ⟨failed, ((threadInvocation_fails_iff_refused {} _).1 _).mp failed⟩

end Config

end Pipelines
