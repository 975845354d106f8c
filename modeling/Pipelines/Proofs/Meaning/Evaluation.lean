import Pipelines.Proofs.Filling
import Pipelines.Proofs.Meaning.World
import Pipelines.Threading.Size

namespace Pipelines

/-!
# Evaluation

Two evaluators. `Expr.evaluate` knows nothing of pipelines and runs a tree from
left to right. `Expr.run` does the same, but in a pipeline it evaluates the seed
once and hands the value itself from step to step: at the free holes of a step,
or else as its first argument. It threads nothing and synthesises no name.
-/

universe u

variable {V S : Type u}

mutual

/-- The value of a tree. A hole has a given value. -/
def Expr.evaluate (given : Interpretation V S) (current : V) : Expr → StateM (World V S) V
  | .name x => World.read x
  | .call callee args => do
      let function ← callee.evaluate given current
      let values ← Expr.evaluateAll given current args
      World.act (given.apply function values)
  | .assign target value => do
      let result ← value.evaluate given current
      World.store target.name? result
      return result
  | .block lines => do
      let values ← Expr.evaluateAll given current lines
      return values.getLastD given.empty
  | .marked tag inner => do
      let value ← inner.evaluate given current
      World.act (given.mark tag value)
  | .hole => return current
  | .raw payload => World.act (given.raw payload)

def Expr.evaluateAll (given : Interpretation V S) (current : V) :
    List Expr → StateM (World V S) (List V)
  | [] => return []
  | e :: es => do
      let value ← e.evaluate given current
      let values ← Expr.evaluateAll given current es
      return value :: values

end

/-- The number of nodes of the expressions of several steps together. -/
def Step.totalSize : List Step → Nat
  | [] => 0
  | step :: steps => step.expr.size + Step.totalSize steps

theorem Step.totalSize_le {index : Nat} {es : List Expr} {steps : List Step}
    (read : Step.ofExprs index es = .ok steps) : Step.totalSize steps ≤ Expr.totalSize es := by
  induction es generalizing index steps with
  | nil => cases read; exact Nat.le_refl _
  | cons e es ih =>
      obtain ⟨step, first, rest⟩ := bind_eq_ok.mp read
      obtain ⟨others, following, built⟩ := bind_eq_ok.mp rest
      cases built
      have head := Step.size_expr_le first
      have tail := ih following
      simp only [Step.totalSize, Expr.totalSize]
      omega

theorem Pipeline.size_le {args : List Expr} {pipeline : Pipeline}
    (read : Pipeline.ofArguments args = .ok pipeline) :
    pipeline.seed.size + Step.totalSize pipeline.steps ≤ Expr.totalSize args := by
  have flattened := Expr.totalSize_flatten_le args
  unfold Pipeline.ofArguments at read
  split at read
  · cases read
  · rename_i seed es split
    obtain ⟨steps, stepsRead, built⟩ := bind_eq_ok.mp read
    cases built
    have bound := Step.totalSize_le stepsRead
    simp only [split, Expr.totalSize] at flattened
    simp only []
    omega

mutual

/-- The value of a tree in which pipelines are run. A hole has the current value. -/
def Expr.run (invocation : String) (given : Interpretation V S) (current : V) (e : Expr) :
    StateM (World V S) V :=
  match e with
  | .name x => World.read x
  | .call callee args =>
      if callee.name? = some invocation then
        match _read : Pipeline.ofArguments args with
        | .error _ => return given.empty
        | .ok pipeline => do
            let value ← pipeline.seed.run invocation given current
            runSteps invocation given pipeline.steps value
      else do
        let function ← callee.run invocation given current
        let values ← Expr.runAll invocation given current args
        World.act (given.apply function values)
  | .assign target value => do
      let result ← value.run invocation given current
      World.store target.name? result
      return result
  | .block lines => do
      let values ← Expr.runAll invocation given current lines
      return values.getLastD given.empty
  | .marked tag inner => do
      let value ← inner.run invocation given current
      World.act (given.mark tag value)
  | .hole => return current
  | .raw payload => World.act (given.raw payload)
termination_by (e.size, 0)
decreasing_by
  · apply Prod.Lex.left
    have bound := Pipeline.size_le _read
    simp only [Expr.size]
    omega
  · apply Prod.Lex.left
    have bound := Pipeline.size_le _read
    have positive := callee.size_pos
    simp only [Expr.size]
    omega
  all_goals
    apply Prod.Lex.left
    simp only [Expr.size]
    omega

def Expr.runAll (invocation : String) (given : Interpretation V S) (current : V)
    (es : List Expr) : StateM (World V S) (List V) :=
  match es with
  | [] => return []
  | e :: es => do
      let value ← e.run invocation given current
      let values ← Expr.runAll invocation given current es
      return value :: values
termination_by (Expr.totalSize es, es.length + 1)
decreasing_by
  · apply Prod.Lex.right' <;> simp [Expr.totalSize]
  · apply Prod.Lex.right' <;> simp [Expr.totalSize]

/-- The value of an expression with a value as its first argument. A pipeline receives it as its
seed, and what is assigned receives it for an assignment. -/
def Expr.applyTo (invocation : String) (given : Interpretation V S) (value : V) (e : Expr) :
    StateM (World V S) V :=
  match e with
  | .assign target bound => do
      let result ← bound.applyTo invocation given value
      World.store target.name? result
      return result
  | .call callee args =>
      if callee.name? = some invocation then
        match _read : Step.ofExprs 1 (Expr.flatten args) with
        | .error _ => return given.empty
        | .ok steps => runSteps invocation given steps value
      else do
        let function ← callee.run invocation given value
        let values ← Expr.runAll invocation given value args
        World.act (given.apply function (value :: values))
  | e =>
      if e.name? = some invocation then return value
      else do
        let function ← e.run invocation given value
        World.act (given.apply function [value])
termination_by (e.size, 1)
decreasing_by
  · apply Prod.Lex.left
    simp only [Expr.size]
    omega
  · apply Prod.Lex.left
    have bound := Step.totalSize_le _read
    have flattened := Expr.totalSize_flatten_le args
    simp only [Expr.size]
    omega
  · apply Prod.Lex.left
    simp only [Expr.size]
    omega
  · apply Prod.Lex.left
    simp only [Expr.size]
    omega
  · apply Prod.Lex.right
    omega

/-- The value of a step that receives a value. -/
def Step.run (invocation : String) (given : Interpretation V S) (step : Step) (value : V) :
    StateM (World V S) V :=
  if step.kind.isBroadcast then do
    let function ← step.expr.run invocation given value
    let each ← World.act (given.mark .broadcast function)
    World.act (given.apply each [value])
  else if step.expr.hasHole invocation then step.expr.run invocation given value
  else step.expr.applyTo invocation given value
termination_by (step.expr.size, 2)
decreasing_by
  all_goals
    apply Prod.Lex.right
    omega

/-- The value that steps lead to. Each result is kept under the author's name, if there is one, and
flows on unless the step is an aside. -/
def runSteps (invocation : String) (given : Interpretation V S) (steps : List Step) (value : V) :
    StateM (World V S) V :=
  match steps with
  | [] => return value
  | step :: steps => do
      let result ← step.run invocation given value
      World.store step.binding result
      runSteps invocation given steps (if step.kind = .aside then value else result)
termination_by (Step.totalSize steps, steps.length + 3)
decreasing_by
  · apply Prod.Lex.right'
    · simp only [Step.totalSize]; omega
    · simp
  · apply Prod.Lex.right'
    · simp only [Step.totalSize]; omega
    · simp

end

section

variable {invocation : String} (given : Interpretation V S)

theorem Expr.run_refused {args : List Expr} {cause : Error}
    (refused : Pipeline.ofArguments args = .error cause) (current : V) :
    (Expr.call (.name invocation) args).run invocation given current = return given.empty := by
  rw [Expr.run, if_pos (Expr.name?_name invocation)]
  split
  · rfl
  · rename_i accepted
    rw [refused] at accepted
    cases accepted

theorem Expr.run_accepted {args : List Expr} {pipeline : Pipeline}
    (accepted : Pipeline.ofArguments args = .ok pipeline) (current : V) :
    (Expr.call (.name invocation) args).run invocation given current = (do
      let value ← pipeline.seed.run invocation given current
      runSteps invocation given pipeline.steps value) := by
  rw [Expr.run, if_pos (Expr.name?_name invocation)]
  split
  · rename_i refused
    rw [accepted] at refused
    cases refused
  · rename_i again
    rw [accepted] at again
    cases again
    rfl

theorem Expr.run_call {callee : Expr} (plain : callee.name? ≠ some invocation) (args : List Expr)
    (current : V) :
    (Expr.call callee args).run invocation given current = (do
      let function ← callee.run invocation given current
      let values ← Expr.runAll invocation given current args
      World.act (given.apply function values)) := by
  rw [Expr.run, if_neg plain]

theorem Expr.applyTo_refused {args : List Expr} {cause : Error}
    (refused : Step.ofExprs 1 (Expr.flatten args) = .error cause) (value : V) :
    (Expr.call (.name invocation) args).applyTo invocation given value = return given.empty := by
  rw [Expr.applyTo, if_pos (Expr.name?_name invocation)]
  split
  · rfl
  · rename_i accepted
    rw [refused] at accepted
    cases accepted

theorem Expr.applyTo_accepted {args : List Expr} {steps : List Step}
    (accepted : Step.ofExprs 1 (Expr.flatten args) = .ok steps) (value : V) :
    (Expr.call (.name invocation) args).applyTo invocation given value =
      runSteps invocation given steps value := by
  rw [Expr.applyTo, if_pos (Expr.name?_name invocation)]
  split
  · rename_i refused
    rw [accepted] at refused
    cases refused
  · rename_i again
    rw [accepted] at again
    cases again
    rfl

theorem Expr.applyTo_call {callee : Expr} (plain : callee.name? ≠ some invocation)
    (args : List Expr) (value : V) :
    (Expr.call callee args).applyTo invocation given value = (do
      let function ← callee.run invocation given value
      let values ← Expr.runAll invocation given value args
      World.act (given.apply function (value :: values))) := by
  rw [Expr.applyTo, if_neg plain]

theorem Expr.applyTo_invocation (value : V) :
    (Expr.name invocation).applyTo invocation given value = return value := by
  rw [Expr.applyTo, if_pos (Expr.name?_name invocation)]
  · intro target bound same
    cases same
  · intro callee args same
    cases same

theorem Expr.applyTo_other {e : Expr} (unassigned : ∀ target bound, e = .assign target bound → False)
    (uncalled : ∀ callee args, e = .call callee args → False) (plain : e.name? ≠ some invocation)
    (value : V) :
    e.applyTo invocation given value = (do
      let function ← e.run invocation given value
      World.act (given.apply function [value])) := by
  rw [Expr.applyTo, if_neg plain]
  · exact unassigned
  · exact uncalled

end

end Pipelines
