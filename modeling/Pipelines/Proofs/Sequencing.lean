import Pipelines.Proofs.Reports

namespace Pipelines

variable {invocation : String}

theorem thread_of_steps {steps : List Step} (some : steps ≠ []) (seed : Expr) (supply : Supply) :
    thread invocation seed steps supply = (do
      let (start, current, supply) ← nameSeed seed supply
      let (statements, current, supply) := threadSteps invocation steps current supply
      return (⟨start ++ statements, .name current⟩, supply)) := by
  cases steps with
  | nil => exact absurd rfl some
  | cons step steps => rfl

theorem thread_name (current : String) (steps : List Step) (supply : Supply) :
    thread invocation (.name current) steps supply =
      .ok (⟨(threadSteps invocation steps current supply).1,
          .name (threadSteps invocation steps current supply).2.1⟩,
        (threadSteps invocation steps current supply).2.2) := by
  cases steps with
  | nil => rfl
  | cons step steps => rfl

theorem exists_name_of_thread {seed : Expr} {steps : List Step} {supply rest : Supply}
    {threaded : Threaded} (some : steps ≠ [])
    (done : thread invocation seed steps supply = .ok (threaded, rest)) :
    ∃ x, threaded.final = .name x := by
  obtain ⟨_, _, _, _, _, final, _⟩ := (thread_eq_ok some).mp done
  exact ⟨_, final⟩

theorem threadSteps_append (first second : List Step) (current : String) (supply : Supply) :
    threadSteps invocation (first ++ second) current supply =
      let (begun, current, supply) := threadSteps invocation first current supply
      let (ended, current, supply) := threadSteps invocation second current supply
      (begun ++ ended, current, supply) := by
  induction first generalizing current supply with
  | nil => rfl
  | cons step first ih => simp only [List.cons_append, threadSteps, ih]

/-- The final value of the first steps is the seed of the others. -/
theorem thread_append (seed : Expr) (first second : List Step) (supply : Supply) :
    thread invocation seed (first ++ second) supply = (do
      let (begun, supply) ← thread invocation seed first supply
      let (ended, supply) ← thread invocation begun.final second supply
      return (⟨begun.statements ++ ended.statements, ended.final⟩, supply)) := by
  by_cases none : first = []
  · subst none
    simp only [List.nil_append, thread_nil, bind, Except.bind, pure, Except.pure]
    cases thread invocation seed second supply <;> rfl
  · rw [thread_of_steps (List.append_ne_nil_of_left_ne_nil none second), thread_of_steps none]
    cases nameSeed seed supply with
    | error cause => rfl
    | ok named =>
        simp [bind, Except.bind, pure, Except.pure, thread_name, threadSteps_append]

/-- The steps whose value flows on. -/
def withoutAsides (steps : List Step) : List Step :=
  steps.filter fun step => step.kind ≠ .aside

/-- The statements whose value is kept. -/
def withoutDiscards (statements : List Statement) : List Statement :=
  statements.filter fun statement => statement.binding ≠ .discard

theorem withoutDiscards_append (first second : List Statement) :
    withoutDiscards (first ++ second) = withoutDiscards first ++ withoutDiscards second :=
  List.filter_append ..

/-- Steps without asides become the statements that are kept, end in the same name and draw the
same names. -/
theorem threadSteps_withoutAsides (steps : List Step) (current : String) (supply : Supply) :
    threadSteps invocation (withoutAsides steps) current supply =
      let (statements, current, supply) := threadSteps invocation steps current supply
      (withoutDiscards statements, current, supply) := by
  induction steps generalizing current supply with
  | nil => rfl
  | cons step steps ih =>
      by_cases aside : step.kind = .aside
      · have skipped : withoutAsides (step :: steps) = withoutAsides steps :=
          List.filter_cons_of_neg (by simp [aside])
        rw [skipped, ih]
        simp [threadSteps, Step.thread_aside aside, withoutDiscards]
      · have taken : withoutAsides (step :: steps) = step :: withoutAsides steps :=
          List.filter_cons_of_pos (by simp [aside])
        rw [taken]
        simp [threadSteps, Step.thread_bound aside, ih, withoutDiscards,
          Supply.choose_ne_discard supply step.binding]

namespace Config

variable {config : Config} {seed : Expr} {steps : List Step} {supply : Supply}

theorem threadSteps_of_ok {result : Threaded × Supply}
    (done : Pipelines.thread config.invocation seed steps supply = .ok result) :
    config.threadSteps seed steps supply = ⟨steps.map Event.ofStep, .ok result⟩ := by
  simp [threadSteps, done, Traced.report, Traced.bind_eq, Traced.andThen, Traced.pure_eq]

theorem threadSteps_of_error {cause : Error}
    (failed : Pipelines.thread config.invocation seed steps supply = .error cause) :
    config.threadSteps seed steps supply = ⟨[], .error cause⟩ := by
  rw [threadSteps, failed]
  rfl

theorem outcome_threadSteps :
    (config.threadSteps seed steps supply).outcome =
      Pipelines.thread config.invocation seed steps supply := by
  cases outcome : Pipelines.thread config.invocation seed steps supply with
  | error cause => rw [threadSteps_of_error outcome]
  | ok result => rw [threadSteps_of_ok outcome]

/-- Steps can be threaded in two runs: the second one takes the final value of the first for its
seed and the supply as the first left it. -/
theorem threadSteps_in_two_runs (config : Config) (seed : Expr) (first second : List Step)
    (supply : Supply) :
    config.threadSteps seed (first ++ second) supply = (do
      let (begun, middle) ← config.threadSteps seed first supply
      let (ended, rest) ← config.threadSteps begun.final second middle
      return (⟨begun.statements ++ ended.statements, ended.final⟩, rest)) := by
  have whole : Pipelines.thread config.invocation seed (first ++ second) supply = _ :=
    thread_append seed first second supply
  cases begun : Pipelines.thread config.invocation seed first supply with
  | error cause =>
      rw [begun] at whole
      rw [threadSteps_of_error whole, threadSteps_of_error begun]
      rfl
  | ok result =>
      obtain ⟨threaded, middle⟩ := result
      rw [begun] at whole
      rw [threadSteps_of_ok begun]
      cases ended : Pipelines.thread config.invocation threaded.final second middle with
      | error cause =>
          -- Behind a first step the seed is a name, which is never refused.
          have none : first = [] := by
            by_contra some
            obtain ⟨x, named⟩ := exists_name_of_thread some begun
            rw [named, thread_name] at ended
            cases ended
          simp only [bind, Except.bind, ended] at whole
          rw [threadSteps_of_error whole, none]
          simp [Traced.bind_eq, Traced.andThen, threadSteps_of_error ended]
      | ok result =>
          simp only [bind, Except.bind, ended] at whole
          rw [threadSteps_of_ok whole]
          simp [Traced.bind_eq, Traced.andThen, threadSteps_of_ok ended, Traced.pure_eq]

/-- Asides have no part in what is threaded around them: without them the steps fail or succeed
alike, in the same value, with the same supply left and with the statements that are kept. -/
theorem threadSteps_around_asides (config : Config) (seed : Expr) {steps : List Step}
    (flows : ∃ step ∈ steps, step.kind ≠ .aside) (supply : Supply) :
    (config.threadSteps seed (withoutAsides steps) supply).outcome =
      (config.threadSteps seed steps supply).outcome.map fun (threaded, rest) =>
        (⟨withoutDiscards threaded.statements, threaded.final⟩, rest) := by
  obtain ⟨step, member, bound⟩ := flows
  have some : steps ≠ [] := List.ne_nil_of_mem member
  have others : withoutAsides steps ≠ [] :=
    List.ne_nil_of_mem (List.mem_filter.mpr ⟨member, by simp [bound]⟩)
  rw [outcome_threadSteps, outcome_threadSteps, thread_of_steps some, thread_of_steps others]
  cases named : nameSeed seed supply with
  | error cause => rfl
  | ok result =>
      obtain ⟨start, current, middle⟩ := result
      have kept : withoutDiscards start = start :=
        List.filter_eq_self.mpr fun statement among => by
          simpa using (nameSeed_named named).1 statement among
      simp only [bind, Except.bind, pure, Except.pure, Except.map, threadSteps_withoutAsides,
        withoutDiscards_append, kept]

/-- The seed `f()` goes through `@aside w = log(_)`, `g`, `@aside k = h`, `z = @. abs` and
`@aside _`, where the first aside also carries a name. -/
theorem threadSteps_around_asides_of_each_kind :
    (∃ step ∈ ([⟨1, .aside, some "w", .call (.name "log") [.hole]⟩, ⟨2, .plain, none, .name "g"⟩,
        ⟨3, .aside, none, .assign (.name "k") (.name "h")⟩,
        ⟨4, .assignBroadcast, some "z", .name "abs"⟩, ⟨5, .aside, none, .hole⟩] : List Step),
      step.kind ≠ .aside) ∧
    (threadSteps {} (.call (.name "f") [])
        (withoutAsides [⟨1, .aside, some "w", .call (.name "log") [.hole]⟩,
          ⟨2, .plain, none, .name "g"⟩, ⟨3, .aside, none, .assign (.name "k") (.name "h")⟩,
          ⟨4, .assignBroadcast, some "z", .name "abs"⟩, ⟨5, .aside, none, .hole⟩])
        (.ofRoots "t" [.name "t1"])).outcome =
      .ok (⟨[⟨.temp "t2", .call (.name "f") []⟩, ⟨.temp "t3", .call (.name "g") [.name "t2"]⟩,
          ⟨.user "z", .call (.marked .broadcast (.name "abs")) [.name "t3"]⟩], .name "z"⟩,
        ⟨"t", 3, ["t1"]⟩) :=
  ⟨by decide, (threadSteps_around_asides {} (.call (.name "f") []) (by decide) _).trans (by cbv)⟩

end Config

end Pipelines
