import Pipelines.Proofs.Settling

namespace Pipelines

open Supply (Drawn)

variable {invocation : String} {supply rest : Supply}

theorem Step.targets_ofExpr {index : Nat} {e : Expr} {step : Step}
    (read : Step.ofExpr index e = .ok step) :
    step.expr.targets ⊆ e.targets ∧ ∀ y, step.binding = some y → .name y ∈ e.targets := by
  have body : step.body.targets = step.expr.targets := by
    unfold Step.body
    split <;> simp
  rcases Step.ofExpr_cases read with ⟨_, unbound, rfl⟩ | ⟨_, unbound, rfl⟩ | ⟨_, y, bound, rfl⟩
  · simp [unbound]
  · simp [unbound, body]
  · simp [bound, body]

theorem Statement.forall_targets {P : Expr → Prop} {statement : Statement}
    (named : ∀ x, statement.binding.name? = some x → P (.name x))
    (inside : ∀ target ∈ statement.value.targets, P target) :
    ∀ target ∈ statement.toExpr.targets, P target := by
  intro target member
  unfold Statement.toExpr at member
  split at member
  · rw [Expr.targets_assign, List.mem_cons] at member
    rcases member with rfl | within
    · exact named _ ‹_›
    · exact inside target (by simpa using within)
  · exact inside target member

section

variable {P : Expr → Prop} (filled : ∀ target x, P target → P (target.fill invocation (.name x)))

include filled

theorem Step.forall_targets {index : Nat} {e : Expr} {step : Step} {current name : String}
    {statement : Statement} (read : Step.ofExpr index e = .ok step)
    (threaded : step.thread invocation current supply = (statement, name, rest))
    (written : ∀ target ∈ e.targets, P target) (drawn : ∀ x, Drawn supply rest x → P (.name x)) :
    ∀ target ∈ statement.toExpr.targets, P target := by
  obtain ⟨inExpr, inBinding⟩ := Step.targets_ofExpr read
  obtain ⟨value, _, cases⟩ := Step.thread_cases threaded
  refine Statement.forall_targets (fun x named => ?_) fun target member => ?_
  · rcases cases with ⟨_, discard, _⟩ | ⟨_, author, user⟩ | ⟨_, _, temp, fresh⟩
    · simp [discard, Binding.name?] at named
    · simp only [user, Binding.name?, Option.some.injEq] at named
      exact written _ (inBinding x (named ▸ author))
    · simp only [temp, Binding.name?, Option.some.injEq] at named
      exact drawn x (named ▸ fresh)
  · rw [value, Step.targets_value read] at member
    rcases Expr.mem_targets_fill member with kept | ⟨free, reached, rfl⟩
    · exact written target (inExpr kept)
    · exact filled free _ (written free (inExpr (Expr.freeTargets_subset _ _ reached)))

theorem threadSteps_forall_targets {index : Nat} {es : List Expr} {steps : List Step}
    {current : String} (read : Step.ofExprs index es = .ok steps)
    (written : ∀ target ∈ Expr.targetsOf es, P target)
    (drawn : ∀ x, Drawn supply (threadSteps invocation steps current supply).2.2 x → P (.name x)) :
    ∀ statement ∈ (threadSteps invocation steps current supply).1,
      ∀ target ∈ statement.toExpr.targets, P target := by
  induction es generalizing index steps current supply with
  | nil =>
      cases read
      simp [threadSteps]
  | cons e es ih =>
      obtain ⟨step, others, first, follow, rfl⟩ := Step.ofExprs_cons_eq_ok.mp read
      rcases threaded : step.thread invocation current supply with ⟨statement, name, after⟩
      obtain ⟨_, later, _⟩ := Step.thread_cases threaded
      simp only [threadSteps, threaded, Expr.targetsOf_cons, List.forall_mem_append,
        List.forall_mem_cons] at drawn written ⊢
      refine ⟨?_, ih follow written.2 fun x fresh => drawn x (fresh.before later)⟩
      exact Step.forall_targets filled first threaded written.1 fun x fresh =>
        drawn x (fresh.extend (threadSteps_later invocation others name after))

theorem threadArguments_forall_targets {args : List Expr} {pipeline : Pipeline}
    {threaded : Threaded}
    (accepted : threadArguments invocation args supply = .ok (pipeline, threaded, rest))
    (written : ∀ target ∈ Expr.targetsOf args, P target)
    (drawn : ∀ x, Drawn supply rest x → P (.name x)) :
    ∀ target ∈ threaded.toExpr.targets, P target := by
  obtain ⟨read, done⟩ := threadArguments_eq_ok.mp accepted
  obtain ⟨es, split, follow⟩ := Pipeline.ofArguments_eq_ok.mp read
  rw [← Expr.targetsOf_flatten, split, Expr.targetsOf_cons, List.forall_mem_append] at written
  by_cases none : pipeline.steps = []
  · rw [none, thread_nil] at done
    cases done
    exact written.1
  obtain ⟨start, current, middle, named, statements, final, rfl⟩ := (thread_eq_ok none).mp done
  have stepsLater := threadSteps_later invocation pipeline.steps current middle
  have seeded : ∀ statement ∈ start, ∀ target ∈ statement.toExpr.targets, P target := by
    rcases nameSeed_cases named with ⟨_, rfl, _⟩ | ⟨value, same, rfl, _⟩ | ⟨_, _, rfl, next⟩
    · simp
    · rw [same] at written
      simpa [Statement.toExpr, Binding.name?] using written.1
    · have fresh := drawn current ((Supply.drawn_of_eq_next next).extend stepsLater)
      simpa [Statement.toExpr, Binding.name?, fresh] using written.1
  have stepped := threadSteps_forall_targets filled follow written.2
    fun x fresh => drawn x (fresh.before (nameSeed_later named))
  rw [toExpr_of_steps none done, Expr.targets_block, Expr.targetsOf_eq_flatMap, final, statements]
  simp only [List.mem_flatMap, List.mem_append, List.mem_map, List.mem_singleton]
  rintro target ⟨line, ⟨statement, atStart | behind, rfl⟩ | rfl, member⟩
  · exact seeded statement atStart target member
  · exact stepped statement behind target member
  · cases member

end

theorem InTurn.names {es es' : List Expr} {x : String}
    (run : InTurn (fun e before e' after => ∃ _ : Expands invocation e before e' after,
      x ∈ e'.names → x ∈ e.names ∨ Drawn before after x) es supply es' rest)
    (member : x ∈ Expr.namesOf es') : x ∈ Expr.namesOf es ∨ Drawn supply rest x := by
  induction run with
  | nil => cases member
  | cons head tail ih =>
      obtain ⟨expands, names⟩ := head
      rcases List.mem_append.mp member with first | others
      · rcases names first with written | drawn
        · exact .inl (List.mem_append_left _ written)
        · exact .inr (drawn.extend (tail.forget.later fun _ _ _ _ run => run.later))
      · rcases ih others with written | drawn
        · exact .inl (List.mem_append_right _ written)
        · exact .inr (drawn.before expands.later)

theorem Expands.names {e expanded : Expr} {x : String}
    (run : Expands invocation e supply expanded rest) (member : x ∈ expanded.names) :
    x ∈ e.names ∨ Drawn supply rest x := by
  induction run using Expands.induction with
  | name | hole | raw => exact .inl member
  | call _ head _ first others => exact InTurn.names (.cons ⟨head, first⟩ others) member
  | assign head tail first second =>
      have parts := InTurn.names (.cons ⟨head, first⟩ (.cons ⟨tail, second⟩ (.nil _)))
        (by simpa [Expr.names, Expr.namesOf] using member)
      simpa [Expr.names, Expr.namesOf] using parts
  | block _ others => exact others.names member
  | marked _ _ ih => exact ih member
  | pipeline accepted inside ih =>
      rcases ih member with inThreaded | drawn
      · rcases threadArguments_names accepted x inThreaded with written | threading
        · exact .inl (List.mem_append_right _ written)
        · exact .inr (threading.extend inside.later)
      · exact .inr (drawn.before (threadArguments_later accepted))

theorem Expands.not_mem_names {e expanded : Expr} {x : String}
    (run : Expands invocation e supply expanded rest) (unwritten : x ∉ e.names)
    (undrawn : ¬ Drawn supply rest x) : x ∉ expanded.names :=
  fun member => (run.names member).elim unwritten undrawn

theorem InTurn.not_mem_namesOf {es es' : List Expr} {x : String}
    (run : InTurn (Expands invocation) es supply es' rest) (unwritten : x ∉ Expr.namesOf es)
    (undrawn : ¬ Drawn supply rest x) : x ∉ Expr.namesOf es' := by
  intro member
  have known := InTurn.names (run.imp fun _ _ _ _ run => ⟨run, run.names⟩) member
  exact known.elim unwritten undrawn

/-- A target that stays clear of a name: it does not come down to it and takes no name. -/
def Clear (invocation x : String) (target : Expr) : Prop :=
  ¬ MayComeDownTo invocation x target ∧ ¬ TakesName invocation target

theorem Clear.fill {x : String} (other : x ≠ invocation) (target : Expr) (c : String)
    (clear : Clear invocation x target) :
    Clear invocation x (target.fill invocation (.name c)) := by
  refine ⟨fun down => ?_, TakesName.not_fill c target⟩
  rcases down.of_fill other with may | ⟨_, takes⟩
  · exact clear.1 may
  · exact clear.2 takes

theorem Clear.name {x y : String} (different : y ≠ x) : Clear invocation x (.name y) := by
  refine ⟨fun down => ?_, fun takes => nomatch takes⟩
  cases down
  exact different rfl

theorem InTurn.not_mem_targetsOf {es es' : List Expr} {x : String}
    (run : InTurn (fun e before e' after => ∃ _ : Expands invocation e before e' after,
      ¬ before.Ahead x → (∀ target ∈ e.targets, Clear invocation x target) →
        .name x ∉ e'.targets) es supply es' rest)
    (old : ¬ supply.Ahead x) (clear : ∀ target ∈ Expr.targetsOf es, Clear invocation x target) :
    .name x ∉ Expr.targetsOf es' := by
  induction run with
  | nil => simp
  | cons head _ ih =>
      obtain ⟨expands, absent⟩ := head
      rw [Expr.targetsOf_cons, List.forall_mem_append] at clear
      rw [Expr.targetsOf_cons, List.mem_append, not_or]
      exact ⟨absent old clear.1, ih (fun ahead => old (expands.later.ahead ahead)) clear.2⟩

/-- An expansion does not assign a name that it does not draw if all targets stay clear of it. -/
theorem Expands.not_mem_targets {e expanded : Expr} {x : String} (other : x ≠ invocation)
    (run : Expands invocation e supply expanded rest) (old : ¬ supply.Ahead x)
    (clear : ∀ target ∈ e.targets, Clear invocation x target) :
    .name x ∉ expanded.targets := by
  induction run using Expands.induction with
  | name | hole | raw => simp
  | call _ head _ first others =>
      rw [Expr.targets_call, ← Expr.targetsOf_cons] at clear ⊢
      exact InTurn.not_mem_targetsOf (.cons ⟨head, first⟩ others) old clear
  | assign head tail first second =>
      rw [Expr.targets_assign, List.forall_mem_cons] at clear
      rw [Expr.targets_assign, List.mem_cons, not_or]
      have parts := InTurn.not_mem_targetsOf
        (.cons ⟨head, first⟩ (.cons ⟨tail, second⟩ (.nil _))) old (by simpa using clear.2)
      exact ⟨fun same => clear.1.1 (head.eq_name_iff.mp same.symm).may, by simpa using parts⟩
  | block _ others =>
      rw [Expr.targets_block] at clear ⊢
      exact others.not_mem_targetsOf old clear
  | marked _ _ ih => simpa using ih old (by simpa using clear)
  | pipeline accepted _ ih =>
      rw [Expr.targets_call, List.forall_mem_append] at clear
      have later := threadArguments_later accepted
      refine ih (fun ahead => old (later.ahead ahead)) ?_
      refine threadArguments_forall_targets (Clear.fill other) accepted clear.2 fun y drawn => ?_
      exact .name fun same => old (same ▸ drawn.1)

theorem InTurn.not_mem_targetsOf_expands {es es' : List Expr} {x : String}
    (other : x ≠ invocation) (run : InTurn (Expands invocation) es supply es' rest)
    (old : ¬ supply.Ahead x) (clear : ∀ target ∈ Expr.targetsOf es, Clear invocation x target) :
    .name x ∉ Expr.targetsOf es' := by
  exact InTurn.not_mem_targetsOf (run.imp fun _ _ _ _ run => ⟨run, run.not_mem_targets other⟩)
    old clear

end Pipelines
