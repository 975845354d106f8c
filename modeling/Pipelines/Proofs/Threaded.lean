import Pipelines.Outcome
import Pipelines.Transform

namespace Pipelines

variable {invocation : String} {supply rest : Supply}

theorem Pipeline.ofArguments_eq_ok {args : List Expr} {pipeline : Pipeline} :
    Pipeline.ofArguments args = .ok pipeline ↔
      ∃ es, Expr.flatten args = pipeline.seed :: es ∧ Step.ofExprs 1 es = .ok pipeline.steps := by
  unfold Pipeline.ofArguments
  cases flattened : Expr.flatten args with
  | nil => simp
  | cons seed es =>
      simp only [bind_eq_ok]
      constructor
      · intro parts
        obtain ⟨steps, read, built⟩ := parts
        cases built
        exact ⟨es, rfl, read⟩
      · intro parts
        obtain ⟨es, split, read⟩ := parts
        cases split
        exact ⟨pipeline.steps, read, rfl⟩

theorem threadArguments_eq_ok {args : List Expr} {pipeline : Pipeline} {threaded : Threaded} :
    threadArguments invocation args supply = .ok (pipeline, threaded, rest) ↔
      Pipeline.ofArguments args = .ok pipeline ∧
        thread invocation pipeline.seed pipeline.steps supply = .ok (threaded, rest) := by
  simp only [threadArguments, bind_eq_ok, Prod.exists]
  constructor
  · intro parts
    obtain ⟨read, arranged, result, supplied, done, built⟩ := parts
    cases built
    exact ⟨arranged, done⟩
  · intro parts
    obtain ⟨arranged, done⟩ := parts
    exact ⟨pipeline, arranged, threaded, rest, done, rfl⟩

theorem Step.ofExprs_cons_eq_ok {index : Nat} {e : Expr} {es : List Expr} {steps : List Step} :
    Step.ofExprs index (e :: es) = .ok steps ↔
      ∃ step others, Step.ofExpr index e = .ok step ∧
        Step.ofExprs (index + 1) es = .ok others ∧ steps = step :: others := by
  simp only [Step.ofExprs, bind_eq_ok]
  constructor
  · intro parts
    obtain ⟨step, first, others, following, built⟩ := parts
    cases built
    exact ⟨step, others, first, following, rfl⟩
  · intro parts
    obtain ⟨step, others, first, following, rfl⟩ := parts
    exact ⟨step, first, others, following, rfl⟩

theorem Step.ofExprs_eq_nil {index : Nat} {es : List Expr}
    (read : Step.ofExprs index es = .ok []) : es = [] := by
  cases es with
  | nil => rfl
  | cons e es =>
      obtain ⟨step, others, _, _, impossible⟩ := Step.ofExprs_cons_eq_ok.mp read
      cases impossible

theorem Step.mem_ofExprs {index : Nat} {es : List Expr} {steps : List Step} {step : Step}
    (read : Step.ofExprs index es = .ok steps) (member : step ∈ steps) :
    ∃ e ∈ es, ∃ position, Step.ofExpr position e = .ok step := by
  induction es generalizing index steps with
  | nil => cases read; cases member
  | cons e es ih =>
      obtain ⟨first, others, head, following, rfl⟩ := Step.ofExprs_cons_eq_ok.mp read
      rcases List.mem_cons.mp member with rfl | later
      · exact ⟨e, by simp, index, head⟩
      · obtain ⟨other, among, position, found⟩ := ih following later
        exact ⟨other, by simp [among], position, found⟩

theorem Step.index_ofExpr {index : Nat} {e : Expr} {step : Step}
    (read : Step.ofExpr index e = .ok step) : step.index = index := by
  unfold Step.ofExpr at read
  split at read
  · cases read; rfl
  · obtain ⟨function, _, built⟩ := bind_eq_ok.mp read
    cases built; rfl
  · obtain ⟨function, _, built⟩ := bind_eq_ok.mp read
    cases built; rfl
  · cases read; rfl
  · cases read
  · cases read; rfl

/-- The expression of a step without an aside and without the author's name for the value. -/
def Step.body (step : Step) : Expr :=
  if step.kind.isBroadcast then .marked .broadcast step.expr else step.expr

theorem Step.ofExpr_cases {index : Nat} {e : Expr} {step : Step}
    (read : Step.ofExpr index e = .ok step) :
    (step.kind = .aside ∧ step.binding = none ∧ e = .marked .aside step.expr) ∨
    (step.kind ≠ .aside ∧ step.binding = none ∧ e = step.body) ∨
    (step.kind ≠ .aside ∧ ∃ y, step.binding = some y ∧ e = .assign (.name y) step.body) := by
  unfold Step.ofExpr at read
  split at read
  · cases read
    exact .inl ⟨rfl, rfl, rfl⟩
  · obtain ⟨function, accepted, built⟩ := bind_eq_ok.mp read
    cases built
    rw [Step.eq_of_broadcastFunction accepted]
    exact .inr (.inl ⟨by simp, rfl, rfl⟩)
  · obtain ⟨function, accepted, built⟩ := bind_eq_ok.mp read
    cases built
    rw [Step.eq_of_broadcastFunction accepted]
    exact .inr (.inr ⟨by simp, _, rfl, rfl⟩)
  · cases read
    exact .inr (.inr ⟨by simp, _, rfl, rfl⟩)
  · cases read
  · cases read
    exact .inr (.inl ⟨by simp, rfl, rfl⟩)

theorem Step.binding_of_aside {index : Nat} {e : Expr} {step : Step}
    (read : Step.ofExpr index e = .ok step) (aside : step.kind = .aside) : step.binding = none := by
  rcases Step.ofExpr_cases read with ⟨_, unbound, _⟩ | ⟨other, _⟩ | ⟨other, _⟩
  · exact unbound
  · exact absurd aside other
  · exact absurd aside other

theorem Step.eq_of_aside {index : Nat} {e : Expr} {step : Step}
    (read : Step.ofExpr index e = .ok step) (aside : step.kind = .aside) :
    e = .marked .aside step.expr := by
  rcases Step.ofExpr_cases read with ⟨_, _, same⟩ | ⟨other, _⟩ | ⟨other, _⟩
  · exact same
  · exact absurd aside other
  · exact absurd aside other

theorem Step.isAssignment_of_assign {index : Nat} {target value : Expr} {step : Step}
    (read : Step.ofExpr index (.assign target value) = .ok step) :
    step.kind.isAssignment = true := by
  unfold Step.ofExpr at read
  split at read
  · cases ‹Expr.assign target value = _›
  · cases ‹Expr.assign target value = _›
  · obtain ⟨function, accepted, built⟩ := bind_eq_ok.mp read
    cases built
    rfl
  · cases read
    rfl
  · cases read
  · rename_i unassigned
    exact absurd rfl (unassigned target value)

theorem Step.name_of_broadcast {index : Nat} {e : Expr} {step : Step}
    (read : Step.ofExpr index e = .ok step) (broadcast : step.kind.isBroadcast = true) :
    ∃ f, step.expr = .name f := by
  have named : ∀ {inner function : Expr},
      Step.broadcastFunction index inner = .ok function → ∃ f, function = .name f := by
    intro inner function accepted
    cases inner <;> cases accepted
    exact ⟨_, rfl⟩
  unfold Step.ofExpr at read
  split at read
  · cases read; cases broadcast
  · obtain ⟨function, accepted, built⟩ := bind_eq_ok.mp read
    cases built
    exact named accepted
  · obtain ⟨function, accepted, built⟩ := bind_eq_ok.mp read
    cases built
    exact named accepted
  · cases read; cases broadcast
  · cases read
  · cases read; cases broadcast

theorem thread_nil (seed : Expr) :
    thread invocation seed [] supply = .ok (⟨[], seed⟩, supply) := rfl

theorem thread_eq_ok {seed : Expr} {steps : List Step} {threaded : Threaded}
    (some : steps ≠ []) :
    thread invocation seed steps supply = .ok (threaded, rest) ↔
      ∃ start current middle, nameSeed seed supply = .ok (start, current, middle) ∧
        threaded.statements = start ++ (threadSteps invocation steps current middle).1 ∧
        threaded.final = .name (threadSteps invocation steps current middle).2.1 ∧
        rest = (threadSteps invocation steps current middle).2.2 := by
  obtain ⟨statements, final⟩ := threaded
  cases steps with
  | nil => exact absurd rfl some
  | cons step steps =>
      simp only [thread, bind_eq_ok, Prod.exists]
      constructor
      · intro parts
        obtain ⟨start, current, middle, named, built⟩ := parts
        cases built
        exact ⟨start, current, middle, named, rfl, rfl, rfl⟩
      · intro parts
        obtain ⟨start, current, middle, named, rfl, rfl, rfl⟩ := parts
        exact ⟨start, current, middle, named, rfl⟩

/-- A bare name is the current name itself, an assignment binds the name that its author chose,
and any other seed is bound to the next name of the supply. -/
theorem nameSeed_cases {seed : Expr} {start : List Statement} {current : String}
    (named : nameSeed seed supply = .ok (start, current, rest)) :
    (seed = .name current ∧ start = [] ∧ rest = supply) ∨
    (∃ value, seed = .assign (.name current) value ∧ start = [⟨.user current, value⟩] ∧
      rest = supply) ∨
    (Step.ofExpr 0 seed = .ok ⟨0, .plain, none, seed⟩ ∧ seed.name? = none ∧
      start = [⟨.temp current, seed⟩] ∧ (current, rest) = supply.next) := by
  obtain ⟨step, read, bound⟩ := bind_eq_ok.mp named
  have again := read
  unfold Step.ofExpr at read
  split at read
  · cases read; cases bound
  · obtain ⟨function, accepted, built⟩ := bind_eq_ok.mp read
    cases built
    cases bound
  · obtain ⟨function, accepted, built⟩ := bind_eq_ok.mp read
    cases built
    cases bound
  · cases read
    cases bound
    exact .inr (.inl ⟨_, rfl, rfl, rfl⟩)
  · cases read
  · cases read
    cases seed with
    | name x => cases bound; exact .inl ⟨rfl, rfl, rfl⟩
    | _ => cases bound; exact .inr (.inr ⟨again, rfl, rfl, rfl⟩)

/-- The value of a step that receives a name. -/
def Step.value (invocation : String) (step : Step) (current : String) : Expr :=
  if step.kind.isBroadcast then .call (.marked .broadcast step.expr) [.name current]
  else step.expr.feed invocation (.name current)

theorem Step.thread_aside {step : Step} (aside : step.kind = .aside) (current : String)
    (supply : Supply) :
    step.thread invocation current supply =
      (⟨.discard, step.value invocation current⟩, current, supply) := by
  simp [Step.thread, Step.value, aside, StepKind.isBroadcast]

theorem Step.thread_bound {step : Step} (bound : step.kind ≠ .aside) (current : String)
    (supply : Supply) :
    step.thread invocation current supply =
      (⟨(supply.choose step.binding).1, step.value invocation current⟩,
        (supply.choose step.binding).2.1, (supply.choose step.binding).2.2) := by
  cases kind : step.kind with
  | aside => exact absurd kind bound
  | _ => simp [Step.thread, Step.value, kind, StepKind.isBroadcast]

theorem Supply.choose_ne_discard (supply : Supply) (binding : Option String) :
    (supply.choose binding).1 ≠ .discard := by
  cases binding with
  | none => exact Binding.noConfusion
  | some y => exact Binding.noConfusion

theorem Step.value_thread (step : Step) (current : String) (supply : Supply) :
    (step.thread invocation current supply).1.value = step.value invocation current := by
  by_cases aside : step.kind = .aside
  · rw [Step.thread_aside aside]
  · rw [Step.thread_bound aside]

theorem mem_threadSteps {steps : List Step} {current : String} {statement : Statement}
    (member : statement ∈ (threadSteps invocation steps current supply).1) :
    ∃ step ∈ steps, ∃ name, statement.value = step.value invocation name := by
  induction steps generalizing current supply with
  | nil => cases member
  | cons step steps ih =>
      simp only [threadSteps, List.mem_cons] at member
      rcases member with rfl | later
      · exact ⟨step, by simp, current, Step.value_thread step current supply⟩
      · obtain ⟨other, among, name, same⟩ := ih later
        exact ⟨other, by simp [among], name, same⟩

theorem length_threadSteps (steps : List Step) (current : String) (supply : Supply) :
    (threadSteps invocation steps current supply).1.length = steps.length := by
  induction steps generalizing current supply with
  | nil => rfl
  | cons step steps ih => simp [threadSteps, ih]

/-- A pipeline with steps is threaded into a block. -/
theorem toExpr_of_steps {seed : Expr} {steps : List Step} {threaded : Threaded}
    (some : steps ≠ []) (done : thread invocation seed steps supply = .ok (threaded, rest)) :
    threaded.toExpr = .block (threaded.statements.map Statement.toExpr ++ [threaded.final]) := by
  obtain ⟨start, current, middle, _, statements, _⟩ := (thread_eq_ok some).mp done
  unfold Threaded.toExpr
  split
  · rename_i none
    have counted := congrArg List.length (statements.symm.trans none)
    rw [List.length_append, length_threadSteps, List.length_nil] at counted
    exact absurd (List.length_eq_zero_iff.mp (by omega)) some
  · rfl

theorem Config.outcome_threadInvocation_eq_bind (config : Config) (args : List Expr) :
    (config.threadInvocation args).outcome =
      threadArguments config.invocation args (.ofRoots config.stem args) >>= fun (_, threaded, _) =>
        .ok threaded := by
  rw [threadInvocation]
  cases threadArguments config.invocation args (.ofRoots config.stem args) <;> rfl

theorem Config.outcome_threadInvocation {config : Config} {args : List Expr} {threaded : Threaded} :
    (config.threadInvocation args).outcome = .ok threaded ↔
      ∃ pipeline rest, threadArguments config.invocation args (.ofRoots config.stem args) =
        .ok (pipeline, threaded, rest) := by
  rw [outcome_threadInvocation_eq_bind, bind_eq_ok]
  simp

theorem Config.outcome_threadInvocation_eq_error {config : Config} {args : List Expr}
    {cause : Error} :
    (config.threadInvocation args).outcome = .error cause ↔
      threadArguments config.invocation args (.ofRoots config.stem args) = .error cause := by
  rw [outcome_threadInvocation_eq_bind, bind_eq_error]
  simp

end Pipelines
