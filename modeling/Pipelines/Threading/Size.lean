import Pipelines.Outcome
import Pipelines.Threading

namespace Pipelines

theorem Step.size_of_broadcastFunction {index : Nat} {inner function : Expr}
    (accepted : Step.broadcastFunction index inner = .ok function) :
    function.size = 1 ∧ 1 ≤ inner.size := by
  cases inner <;> simp_all [Step.broadcastFunction]
  subst accepted
  simp [Expr.size]

theorem Step.size_thread_le {index : Nat} {e : Expr} {step : Step}
    (accepted : Step.ofExpr index e = .ok step) (invocation current : String) (supply : Supply) :
    (step.thread invocation current supply).1.value.size ≤ e.size + 2 := by
  unfold Step.ofExpr at accepted
  split at accepted
  · cases accepted
    have grown := Expr.size_feed_le invocation current ‹Expr›
    simp only [Step.thread, Expr.size]
    omega
  · obtain ⟨function, named, built⟩ := bind_eq_ok.mp accepted
    cases built
    have sizes := Step.size_of_broadcastFunction named
    simp only [Step.thread, Expr.size, Expr.totalSize]
    omega
  · obtain ⟨function, named, built⟩ := bind_eq_ok.mp accepted
    cases built
    have sizes := Step.size_of_broadcastFunction named
    simp only [Step.thread, Expr.size, Expr.totalSize]
    omega
  · cases accepted
    have grown := Expr.size_feed_le invocation current ‹Expr›
    simp only [Step.thread, Expr.size]
    omega
  · cases accepted
  · cases accepted
    exact Expr.size_feed_le invocation current _

theorem size_threadSteps_le {invocation : String} {es : List Expr} {steps : List Step}
    {index : Nat} {current : String} {supply : Supply}
    (accepted : Step.ofExprs index es = .ok steps) :
    ∀ statement ∈ (threadSteps invocation steps current supply).1,
      statement.value.size ≤ Expr.totalSize es + 2 := by
  induction es generalizing steps index current supply with
  | nil => cases accepted; simp [threadSteps]
  | cons e es ih =>
      obtain ⟨step, first, rest⟩ := bind_eq_ok.mp accepted
      obtain ⟨others, following, built⟩ := bind_eq_ok.mp rest
      cases built
      intro statement member
      simp only [threadSteps, List.mem_cons] at member
      simp only [Expr.totalSize]
      rcases member with rfl | later
      · have grown := Step.size_thread_le first invocation current supply
        omega
      · have bounded := ih following statement later
        omega

theorem Step.size_expr_le {index : Nat} {e : Expr} {step : Step}
    (accepted : Step.ofExpr index e = .ok step) : step.expr.size ≤ e.size := by
  unfold Step.ofExpr at accepted
  split at accepted
  · cases accepted; simp only [Expr.size]; omega
  · obtain ⟨function, named, built⟩ := bind_eq_ok.mp accepted
    cases built
    have sizes := Step.size_of_broadcastFunction named
    simp only [Expr.size]
    omega
  · obtain ⟨function, named, built⟩ := bind_eq_ok.mp accepted
    cases built
    have sizes := Step.size_of_broadcastFunction named
    simp only [Expr.size]
    omega
  · cases accepted; simp only [Expr.size]; omega
  · cases accepted
  · cases accepted; exact Nat.le_refl _

theorem size_nameSeed_le {seed : Expr} {supply rest : Supply} {start : List Statement}
    {current : String} (accepted : nameSeed seed supply = .ok (start, current, rest)) :
    ∀ statement ∈ start, statement.value.size ≤ seed.size := by
  obtain ⟨step, read, named⟩ := bind_eq_ok.mp accepted
  have bounded := Step.size_expr_le read
  split at named
  · cases named; simp
  · cases named; simp [*]
  · cases named; simpa using bounded
  all_goals cases named

/-- The values of a threaded pipeline are smaller than the call of which the arguments are given. -/
theorem size_thread_lt {invocation : String} {seed : Expr} {es : List Expr} {steps : List Step}
    {supply rest : Supply} {threaded : Threaded} (read : Step.ofExprs 1 es = .ok steps)
    (accepted : thread invocation seed steps supply = .ok (threaded, rest)) :
    (∀ statement ∈ threaded.statements,
      statement.value.size < 2 + (seed.size + Expr.totalSize es)) ∧
    threaded.final.size < 2 + (seed.size + Expr.totalSize es) := by
  have positive := Expr.size_pos seed
  unfold thread at accepted
  split at accepted
  · cases accepted
    exact ⟨by simp, by simp only []; omega⟩
  · obtain ⟨⟨start, current, supplied⟩, named, built⟩ := bind_eq_ok.mp accepted
    cases built
    refine ⟨?_, by simp only [Expr.size]; omega⟩
    intro statement member
    rcases List.mem_append.mp member with first | later
    · have bounded := size_nameSeed_le named statement first
      omega
    · have bounded := size_threadSteps_le read statement later
      omega

theorem size_threadArguments_lt {invocation : String} {args : List Expr} {pipeline : Pipeline}
    {supply rest : Supply} {threaded : Threaded}
    (accepted : threadArguments invocation args supply = .ok (pipeline, threaded, rest)) :
    (∀ statement ∈ threaded.statements, statement.value.size < 2 + Expr.totalSize args) ∧
    threaded.final.size < 2 + Expr.totalSize args := by
  obtain ⟨read, arranged, built⟩ := bind_eq_ok.mp accepted
  obtain ⟨⟨result, supplied⟩, threadedFrom, same⟩ := bind_eq_ok.mp built
  cases same
  have flattened := Expr.totalSize_flatten_le args
  unfold Pipeline.ofArguments at arranged
  split at arranged
  · cases arranged
  · rename_i seed es split
    obtain ⟨steps, stepsRead, parts⟩ := bind_eq_ok.mp arranged
    cases parts
    simp only [Pipeline.thread] at threadedFrom
    have bounds := size_thread_lt stepsRead threadedFrom
    simp only [split, Expr.totalSize] at flattened
    exact ⟨fun statement member => by have bound := bounds.1 statement member; omega,
      by have bound := bounds.2; omega⟩

end Pipelines
