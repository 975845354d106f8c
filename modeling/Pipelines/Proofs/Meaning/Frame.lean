import Pipelines.Proofs.Fresh
import Pipelines.Proofs.Meaning.Evaluation

namespace Pipelines

universe u

variable {V S : Type u}

mutual

/-- The names that are assigned in a tree. -/
def Expr.assigned : Expr → List String
  | .assign target value => target.name?.toList ++ value.assigned
  | .call callee args => callee.assigned ++ Expr.assignedOf args
  | .block lines => Expr.assignedOf lines
  | .marked _ inner => inner.assigned
  | .name _ | .hole | .raw _ => []

def Expr.assignedOf : List Expr → List String
  | [] => []
  | e :: es => e.assigned ++ Expr.assignedOf es

end

theorem Expr.assignedOf_eq_flatMap (es : List Expr) :
    Expr.assignedOf es = es.flatMap Expr.assigned := by
  induction es with
  | nil => rfl
  | cons e es ih => simp [Expr.assignedOf, ih]

theorem Expr.assignedOf_flatten (es : List Expr) :
    Expr.assignedOf (Expr.flatten es) = Expr.assignedOf es := by
  rw [Expr.assignedOf_eq_flatMap, Expr.assignedOf_eq_flatMap]
  exact Expr.flatMap_flatten Expr.assignedOf_eq_flatMap es

mutual

theorem Expr.assigned_subset_names (e : Expr) : e.assigned ⊆ e.names := by
  cases e with
  | assign target value =>
      have inner := Expr.assigned_subset_names value
      cases target <;> simp only [Expr.assigned, Expr.names, Expr.name?] <;> grind
  | call callee args =>
      have head := Expr.assigned_subset_names callee
      have tail := Expr.assignedOf_subset_namesOf args
      simp only [Expr.assigned, Expr.names]
      grind
  | block lines => exact Expr.assignedOf_subset_namesOf lines
  | marked tag inner => exact Expr.assigned_subset_names inner
  | _ => exact List.nil_subset _

theorem Expr.assignedOf_subset_namesOf (es : List Expr) : Expr.assignedOf es ⊆ Expr.namesOf es := by
  cases es with
  | nil => exact List.nil_subset _
  | cons e es =>
      have head := Expr.assigned_subset_names e
      have tail := Expr.assignedOf_subset_namesOf es
      simp only [Expr.assignedOf, Expr.namesOf]
      grind

end

/-- The names that a step assigns, its author's name for the value included. -/
def Step.assigned (step : Step) : List String :=
  step.binding.toList ++ step.expr.assigned

theorem Step.assigned_ofExpr {index : Nat} {e : Expr} {step : Step}
    (read : Step.ofExpr index e = .ok step) : step.assigned = e.assigned := by
  have body : step.body.assigned = step.expr.assigned := by
    unfold Step.body
    split <;> rfl
  rcases Step.ofExpr_cases read with ⟨_, unbound, rfl⟩ | ⟨_, unbound, rfl⟩ | ⟨_, y, bound, rfl⟩
  · simp [Step.assigned, unbound, Expr.assigned]
  · simp [Step.assigned, unbound, body]
  · simp [Step.assigned, bound, Expr.assigned, body]

theorem Step.assigned_ofExprs {index : Nat} {es : List Expr} {steps : List Step}
    (read : Step.ofExprs index es = .ok steps) :
    ∀ step ∈ steps, step.assigned ⊆ Expr.assignedOf es := by
  intro step member x inside
  obtain ⟨e, among, _, found⟩ := Step.mem_ofExprs read member
  rw [Expr.assignedOf_eq_flatMap]
  exact List.mem_flatMap.mpr ⟨e, among, Step.assigned_ofExpr found ▸ inside⟩

theorem Pipeline.assigned_ofArguments {args : List Expr} {pipeline : Pipeline}
    (read : Pipeline.ofArguments args = .ok pipeline) :
    pipeline.seed.assigned ⊆ Expr.assignedOf args ∧
      ∀ step ∈ pipeline.steps, step.assigned ⊆ Expr.assignedOf args := by
  obtain ⟨es, split, follow⟩ := Pipeline.ofArguments_eq_ok.mp read
  rw [← Expr.assignedOf_flatten, split, Expr.assignedOf]
  exact ⟨List.subset_append_left _ _, fun step member =>
    List.subset_append_of_subset_right _ (Step.assigned_ofExprs follow step member)⟩

/-- No hidden name is read and no kept one is assigned. -/
structure Respects (hidden : String → Prop) (held : Option (String × V))
    (names assigned : List String) : Prop where
  visible : ∀ x ∈ names, ¬ hidden x
  kept : ∀ x value, held = some (x, value) → x ∉ assigned

section

variable {hidden : String → Prop} {held : Option (String × V)}

theorem Respects.of_visible {names assigned : List String} (visible : ∀ x ∈ names, ¬ hidden x) :
    Respects hidden (none : Option (String × V)) names assigned :=
  ⟨visible, fun _ _ none => by cases none⟩

theorem Respects.mono {names assigned fewer less : List String}
    (respects : Respects hidden held names assigned) (read : fewer ⊆ names)
    (stored : less ⊆ assigned) : Respects hidden held fewer less :=
  ⟨fun x member => respects.visible x (read member),
    fun x value kept member => respects.kept x value kept (stored member)⟩

theorem Respects.store {names assigned : List String} {x? : Option String}
    (respects : Respects hidden held names (x?.toList ++ assigned)) (value : V) :
    Simulates hidden held held (World.store x? value : StateM (World V S) PUnit)
      (World.store x? value) := by
  refine .store value fun x v kept same => respects.kept x v kept ?_
  simp [same]

theorem Respects.steps {index : Nat} {es : List Expr} {steps : List Step}
    (respects : Respects hidden held (Expr.namesOf es) (Expr.assignedOf es))
    (read : Step.ofExprs index es = .ok steps) :
    ∀ step ∈ steps, Respects hidden held step.expr.names step.assigned :=
  fun step member => respects.mono (Step.names_ofExprs read step member).1
    (Step.assigned_ofExprs read step member)

theorem Respects.pipeline {args : List Expr} {pipeline : Pipeline}
    (respects : Respects hidden held (Expr.namesOf args) (Expr.assignedOf args))
    (read : Pipeline.ofArguments args = .ok pipeline) :
    Respects hidden held pipeline.seed.names pipeline.seed.assigned ∧
      ∀ step ∈ pipeline.steps, Respects hidden held step.expr.names step.assigned := by
  obtain ⟨seedNames, stepNames⟩ := Pipeline.names_ofArguments read
  obtain ⟨seedAssigned, stepsAssigned⟩ := Pipeline.assigned_ofArguments read
  exact ⟨respects.mono seedNames seedAssigned, fun step member =>
    respects.mono (stepNames step member).1 (stepsAssigned step member)⟩

variable (invocation : String) (given : Interpretation V S)

/-- Evaluation of a tree, of several trees, of steps, of one step and with a first argument gives
the same in alike worlds and leaves alike worlds. -/
theorem run_simulates :
    (∀ (current : V) (e : Expr), Respects hidden held e.names e.assigned →
      Simulates hidden held held (e.run invocation given current) (e.run invocation given current)) ∧
    (∀ (current : V) (es : List Expr), Respects hidden held (Expr.namesOf es) (Expr.assignedOf es) →
      Simulates hidden held held (Expr.runAll invocation given current es)
        (Expr.runAll invocation given current es)) ∧
    (∀ (steps : List Step) (value : V), (∀ step ∈ steps, Respects hidden held step.expr.names step.assigned) →
      Simulates hidden held held (runSteps invocation given steps value)
        (runSteps invocation given steps value)) ∧
    (∀ (step : Step) (value : V), Respects hidden held step.expr.names step.expr.assigned →
      Simulates hidden held held (step.run invocation given value)
        (step.run invocation given value)) ∧
    (∀ (value : V) (e : Expr), Respects hidden held e.names e.assigned →
      Simulates hidden held held (e.applyTo invocation given value)
        (e.applyTo invocation given value)) := by
  refine Expr.run.mutual_induct invocation _ _ _ _ _ ?name ?refused ?accepted ?call ?assign ?block
    ?marked ?hole ?raw ?none ?more ?done ?step ?broadcast ?filled ?inserted ?applyAssign
    ?applyRefused ?applyAccepted ?applyCall ?applyInvocation ?applyOther
  case name =>
    intro current x respects
    rw [Expr.run]
    exact .read (respects.visible x (by simp [Expr.names]))
  case refused =>
    intro current callee args named cause refused respects
    cases Expr.name?_eq_some.mp named
    rw [Expr.run_refused given refused]
    exact .pure _
  case accepted =>
    intro current callee args named pipeline accepted seed steps respects
    cases Expr.name?_eq_some.mp named
    have within := respects.mono (List.subset_append_right _ _) (List.subset_append_right _ _)
    obtain ⟨first, others⟩ := within.pipeline accepted
    rw [Expr.run_accepted given accepted]
    exact (seed first).bind fun value => steps value others
  case call =>
    intro current callee args plain head tail respects
    rw [Expr.run_call given plain]
    refine (head (respects.mono ?_ ?_)).bind fun function =>
      (tail (respects.mono ?_ ?_)).bind fun values => .act _
    all_goals simp [Expr.names, Expr.assigned]
  case assign =>
    intro current target value inner respects
    rw [Expr.run]
    refine (inner (respects.mono ?_ ?_)).bind fun result =>
      (respects.store result).bind fun _ => .pure _
    all_goals simp [Expr.names, Expr.assigned]
  case block =>
    intro current lines inner respects
    rw [Expr.run]
    exact (inner respects).bind fun values => .pure _
  case marked =>
    intro current tag inner ih respects
    rw [Expr.run]
    exact (ih respects).bind fun value => .act _
  case hole =>
    intro current respects
    rw [Expr.run]
    exact .pure _
  case raw =>
    intro current payload respects
    rw [Expr.run]
    exact .act _
  case none =>
    intro current respects
    rw [Expr.runAll]
    exact .pure _
  case more =>
    intro current e es head tail respects
    rw [Expr.runAll]
    refine (head (respects.mono ?_ ?_)).bind fun value =>
      (tail (respects.mono ?_ ?_)).bind fun values => .pure _
    all_goals simp [Expr.namesOf, Expr.assignedOf]
  case done =>
    intro value respects
    rw [runSteps]
    exact .pure _
  case step =>
    intro value step steps head tail respects
    obtain ⟨first, others⟩ := List.forall_mem_cons.mp respects
    rw [runSteps]
    refine (head (first.mono (List.Subset.refl _) (List.subset_append_right _ _))).bind
      fun result => (first.store result).bind fun _ => ?_
    simpa using tail result others
  case broadcast =>
    intro step value broadcast inner respects
    rw [Step.run, if_pos broadcast]
    exact (inner respects).bind fun function => (Simulates.act _).bind fun each => .act _
  case filled =>
    intro step value single holes inner respects
    rw [Step.run, if_neg single, if_pos holes]
    exact inner respects
  case inserted =>
    intro step value single closed inner respects
    rw [Step.run, if_neg single, if_neg closed]
    exact inner respects
  case applyAssign =>
    intro value target bound inner respects
    rw [Expr.applyTo]
    refine (inner (respects.mono ?_ ?_)).bind fun result =>
      (respects.store result).bind fun _ => .pure _
    all_goals simp [Expr.names, Expr.assigned]
  case applyRefused =>
    intro value callee args named cause refused respects
    cases Expr.name?_eq_some.mp named
    rw [Expr.applyTo_refused given refused]
    exact .pure _
  case applyAccepted =>
    intro value callee args named steps accepted inner respects
    cases Expr.name?_eq_some.mp named
    rw [Expr.applyTo_accepted given accepted]
    refine inner (Respects.steps ?_ accepted)
    rw [Expr.namesOf_flatten, Expr.assignedOf_flatten]
    exact respects.mono (List.subset_append_right _ _) (List.subset_append_right _ _)
  case applyCall =>
    intro value callee args plain head tail respects
    rw [Expr.applyTo_call given plain]
    refine (head (respects.mono ?_ ?_)).bind fun function =>
      (tail (respects.mono ?_ ?_)).bind fun values => .act _
    all_goals simp [Expr.names, Expr.assigned]
  case applyInvocation =>
    intro value e _ _ named respects
    cases Expr.name?_eq_some.mp named
    rw [Expr.applyTo_invocation]
    exact .pure _
  case applyOther =>
    intro value e unassigned uncalled plain inner respects
    rw [Expr.applyTo_other given unassigned uncalled plain]
    exact (inner respects).bind fun function => .act _

theorem Respects.run {e : Expr} (respects : Respects hidden held e.names e.assigned) (current : V) :
    Simulates hidden held held (e.run invocation given current) (e.run invocation given current) :=
  (run_simulates invocation given).1 current e respects

theorem Respects.runAll {es : List Expr}
    (respects : Respects hidden held (Expr.namesOf es) (Expr.assignedOf es)) (current : V) :
    Simulates hidden held held (Expr.runAll invocation given current es)
      (Expr.runAll invocation given current es) :=
  (run_simulates invocation given).2.1 current es respects

theorem runSteps_simulates {steps : List Step}
    (respects : ∀ step ∈ steps, Respects hidden held step.expr.names step.assigned) (value : V) :
    Simulates hidden held held (runSteps invocation given steps value)
      (runSteps invocation given steps value) :=
  (run_simulates invocation given).2.2.1 steps value respects

end

end Pipelines
