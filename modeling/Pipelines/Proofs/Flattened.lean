import Mathlib.Logic.Relation
import Pipelines.Proofs.Fresh
import Pipelines.Proofs.Refusal

namespace Pipelines

open Relation (ReflTransGen EqvGen)

namespace Expr

/-- One of several groups is taken away, and its lines stay in its place. -/
inductive Ungroups : List Expr → List Expr → Prop where
  | group (before lines after : List Expr) :
      Ungroups (before ++ .block lines :: after) (before ++ lines ++ after)

theorem Ungroups.flatten_eq {es fs : List Expr} (ungroups : Ungroups es fs) :
    flatten es = flatten fs := by
  cases ungroups with
  | group before lines after =>
      simp only [flatten_append, flatten, splice, List.append_assoc]

theorem Ungroups.prepend {es fs : List Expr} (front : List Expr) (ungroups : Ungroups es fs) :
    Ungroups (front ++ es) (front ++ fs) := by
  cases ungroups with
  | group before lines after =>
      simpa only [List.append_assoc] using group (front ++ before) lines after

theorem Ungroups.append {es fs : List Expr} (behind : List Expr) (ungroups : Ungroups es fs) :
    Ungroups (es ++ behind) (fs ++ behind) := by
  cases ungroups with
  | group before lines after =>
      simpa only [List.append_assoc, List.cons_append] using group before lines (after ++ behind)

mutual

theorem ungroups_splice (e : Expr) : ReflTransGen Ungroups [e] e.splice := by
  cases e with
  | block lines =>
      have opened : Ungroups [.block lines] lines := by
        simpa only [List.nil_append, List.append_nil] using Ungroups.group [] lines []
      exact .head opened (ungroups_flatten lines)
  | _ => exact .refl

/-- Taking groups away one after the other ends with the flattened expressions. -/
theorem ungroups_flatten (es : List Expr) : ReflTransGen Ungroups es (flatten es) := by
  cases es with
  | nil => exact .refl
  | cons e es =>
      have first : ReflTransGen Ungroups ([e] ++ es) (e.splice ++ es) :=
        (ungroups_splice e).lift (· ++ es) fun _ _ ungroups => ungroups.append es
      have others : ReflTransGen Ungroups (e.splice ++ es) (e.splice ++ flatten es) :=
        (ungroups_flatten es).lift (e.splice ++ ·) fun _ _ ungroups => ungroups.prepend e.splice
      exact first.trans others

end

/-- Lists flatten to the same expressions exactly when groups that are taken away or put around any
of the expressions, also around none, lead from one to the other. -/
theorem flatten_eq_iff_regrouped {es fs : List Expr} :
    flatten es = flatten fs ↔ EqvGen Ungroups es fs := by
  constructor
  · intro same
    have regrouped (es : List Expr) : EqvGen Ungroups es (flatten es) := by
      apply EqvGen.reflTransGen_le_eqvGen
      exact ungroups_flatten es
    have left := regrouped es
    rw [same] at left
    exact left.trans _ _ _ ((regrouped fs).symm _ _)
  · intro regrouped
    induction regrouped with
    | rel _ _ ungroups => exact ungroups.flatten_eq
    | refl _ => rfl
    | symm _ _ _ ih => exact ih.symm
    | trans _ _ _ _ _ first second => exact first.trans second

end Expr

namespace Config

variable {config : Config}

theorem threadInvocation_of_flatten_eq {args others : List Expr}
    (same : Expr.flatten args = Expr.flatten others) :
    config.threadInvocation args = config.threadInvocation others := by
  have written : Expr.namesOf args = Expr.namesOf others := by
    rw [← Expr.namesOf_flatten, same, Expr.namesOf_flatten]
  have read : Pipeline.ofArguments args = Pipeline.ofArguments others := by
    rw [Pipeline.ofArguments, Pipeline.ofArguments, same]
  rw [threadInvocation, threadInvocation, Supply.ofRoots, Supply.ofRoots, written,
    threadArguments, threadArguments, read]

theorem transformInvocation_of_flatten_eq {args others : List Expr}
    (same : Expr.flatten args = Expr.flatten others) :
    config.transformInvocation args = config.transformInvocation others := by
  rw [transformInvocation, transformInvocation, threadInvocation_of_flatten_eq same]

theorem outcome_transformInvocation_eq_error {args : List Expr} {cause : Error} :
    (config.transformInvocation args).outcome = .error cause ↔
      Refused (Expr.flatten args) cause := by
  rw [transformInvocation, Traced.outcome_bind, bind_eq_error, outcome_threadInvocation_eq_error,
    threadArguments_eq_error_iff]
  simp [Traced.outcome_pure]

theorem transform_of_ne_nil {seeds : List Expr} (given : seeds ≠ []) (steps : List Expr) :
    config.transform seeds steps = config.transformInvocation (seeds ++ steps) := by
  cases seeds with
  | nil => exact absurd rfl given
  | cons seed seeds => rfl

/-- Seeds and steps that flatten to the same expressions, which is to say that one is the other
regrouped, give the same result, or the same error, with the same events. -/
theorem transform_regrouped (config : Config) {seeds steps seeds' steps' : List Expr}
    (given : seeds ≠ []) (given' : seeds' ≠ []) :
    (Expr.flatten (seeds ++ steps) = Expr.flatten (seeds' ++ steps') →
      config.transform seeds steps = config.transform seeds' steps') ∧
    (EqvGen Expr.Ungroups (seeds ++ steps) (seeds' ++ steps') ↔
      Expr.flatten (seeds ++ steps) = Expr.flatten (seeds' ++ steps')) := by
  refine ⟨fun same => ?_, Expr.flatten_eq_iff_regrouped.symm⟩
  rw [transform_of_ne_nil given, transform_of_ne_nil given']
  exact transformInvocation_of_flatten_eq same

/-- A group around the seed and the first step, and groups around the steps and around nothing. -/
theorem transform_regrouped_of_nested_groups :
    Expr.flatten [.block [], .block [.name "x", .name "f"], .name "g"] =
      Expr.flatten [.name "x", .block [.name "f", .block [.block [], .name "g"]]] ∧
    transform {} [.block [], .block [.name "x", .name "f"]] [.name "g"] =
      transform {} [.name "x"] [.block [.name "f", .block [.block [], .name "g"]]] ∧
    (transform {} [.name "x"] [.block [.name "f", .block [.block [], .name "g"]]]).outcome =
      .ok (.block [.assign (.name "__chain_1") (.call (.name "f") [.name "x"]),
        .assign (.name "__chain_2") (.call (.name "g") [.name "__chain_1"]),
        .name "__chain_2"]) :=
  ⟨rfl, (transform_regrouped {} (by simp) (by simp)).1 rfl, by cbv⟩

/-- Seeds that come to nothing are an error if none was given or if there is no step either, and
otherwise the first of the flattened steps is the seed. -/
theorem transform_without_seed {seeds : List Expr} (nothing : Expr.flatten seeds = [])
    (steps : List Expr) :
    ((config.transform seeds steps).outcome = .error .emptySeed ↔
        seeds = [] ∨ Expr.flatten steps = []) ∧
      (seeds ≠ [] → config.transform seeds steps = config.transformInvocation steps) := by
  cases seeds with
  | nil => simp [transform, Traced.fail]
  | cons seed seeds =>
      have joined : config.transform (seed :: seeds) steps = config.transformInvocation steps :=
        transformInvocation_of_flatten_eq (by rw [Expr.flatten_append, nothing, List.nil_append])
      rw [joined, outcome_transformInvocation_eq_error, refused_emptySeed_iff]
      exact ⟨by simp, fun _ => rfl⟩

/-- Groups without lines, for seeds and for steps. -/
theorem transform_without_seed_of_groups :
    Expr.flatten [.block [.block []], .block []] = [] ∧
      (transform {} [.block [.block []], .block []] [.block []]).outcome = .error .emptySeed :=
  ⟨rfl, (transform_without_seed rfl [.block []]).1.mpr (.inr rfl)⟩

/-- With an empty group for a seed, the step `f` is taken for the seed. -/
theorem transform_takes_step_for_seed :
    Expr.flatten [.block []] = [] ∧
      (transform {} [.block []] [.name "f"]).outcome = .ok (.name "f") ∧
      ¬ ∀ (config : Config) (seeds steps : List Expr), Expr.flatten seeds = [] →
        (config.transform seeds steps).outcome = .error .emptySeed := by
  have taken : (transform {} [.block []] [.name "f"]).outcome = .ok (.name "f") := by cbv
  refine ⟨rfl, taken, fun always => ?_⟩
  have refused := always {} [.block []] [.name "f"] rfl
  rw [taken] at refused
  cases refused

end Config

end Pipelines
