import Mathlib.Data.List.Forall2
import Pipelines.Proofs.Receiving
import Pipelines.Proofs.Termination

namespace Pipelines

/-!
# What expansion reports

Every step is reported just before it is threaded, and a pipeline after its last
step. Whatever can refuse a pipeline comes before the first of these events, and
nothing is expanded between two of them. So a pipeline is reported as a whole or
not at all, and what an expansion reports is made up of such blocks, also if it
fails.
-/

variable {invocation : String}

/-- Threads a named value through steps, and reports each of them first. -/
def reportSteps (invocation : String) :
    List Step → String → Supply → Traced (List Statement × String × Supply)
  | [], current, supply => return ([], current, supply)
  | step :: steps, current, supply => do
      Traced.report [.ofStep step]
      let (statement, current, supply) := step.thread invocation current supply
      let (statements, current, supply) ← reportSteps invocation steps current supply
      return (statement :: statements, current, supply)

/-- Threads a seed through steps, which are reported. The seed is not. -/
def reportThread (invocation : String) (seed : Expr) (steps : List Step) (supply : Supply) :
    Traced (Threaded × Supply) :=
  match steps with
  | [] => return (⟨[], seed⟩, supply)
  | steps => do
      let (start, current, supply) ← Traced.ofExcept (nameSeed seed supply)
      let (statements, current, supply) ← reportSteps invocation steps current supply
      return (⟨start ++ statements, .name current⟩, supply)

/-- Reads arguments as a pipeline, threads it and reports it when it has been threaded. -/
def reportArguments (invocation : String) (args : List Expr) (supply : Supply) :
    Traced (Threaded × Supply) := do
  let pipeline ← Traced.ofExcept (Pipeline.ofArguments args)
  let (threaded, supply) ← reportThread invocation pipeline.seed pipeline.steps supply
  Traced.report [.pipeline invocation pipeline.steps.length threaded.statements.length]
  return (threaded, supply)

namespace Traced

theorem report_append (events others : List Event) :
    report (events ++ others) = (do report events; report others) := rfl

theorem report_cons (event : Event) (events : List Event) :
    report (event :: events) = (do report [event]; report events) := rfl

theorem ofExcept_bind (first : Except Error α) (next : α → Except Error β) :
    ofExcept (first >>= next) = (do let value ← ofExcept first; ofExcept (next value)) := by
  cases first <;> rfl

theorem events_report_bind (events : List Event) (next : Unit → Traced α) :
    (report events >>= next).events = events ++ (next ()).events := rfl

theorem ofExcept_ok (value : α) : ofExcept (.ok value) = pure value := rfl

theorem ofExcept_pure (value : α) : ofExcept (pure value) = pure value := rfl

end Traced

theorem reportSteps_eq (steps : List Step) (current : String) (supply : Supply) :
    reportSteps invocation steps current supply = (do
      Traced.report (steps.map Event.ofStep)
      return threadSteps invocation steps current supply) := by
  induction steps generalizing current supply with
  | nil => rfl
  | cons step steps ih =>
      rw [List.map_cons, Traced.report_cons]
      simp only [reportSteps, threadSteps, ih, bind_assoc, pure_bind]

theorem reportThread_eq (seed : Expr) (steps : List Step) (supply : Supply) :
    reportThread invocation seed steps supply = (do
      let result ← Traced.ofExcept (thread invocation seed steps supply)
      Traced.report (steps.map Event.ofStep)
      return result) := by
  cases steps with
  | nil => rfl
  | cons step steps =>
      simp only [reportThread, thread, reportSteps_eq, Traced.ofExcept_bind, Traced.ofExcept_pure,
        bind_assoc, pure_bind]

/-- Nothing can fail between two events of a pipeline, so all of them may as well be reported at
once. -/
theorem reportArguments_eq (args : List Expr) (supply : Supply) :
    reportArguments invocation args supply = (do
      let (pipeline, threaded, rest) ← Traced.ofExcept (threadArguments invocation args supply)
      Traced.report (pipeline.events invocation threaded)
      return (threaded, rest)) := by
  simp only [reportArguments, threadArguments, reportThread_eq, Pipeline.thread, Pipeline.events,
    Traced.report_append, Traced.ofExcept_bind, Traced.ofExcept_pure, bind_assoc, pure_bind]

/-- How many statements a pipeline with a given seed and steps comes to. -/
def statementCount : Expr → List Expr → Nat
  | _, [] => 0
  | .name _, steps => steps.length
  | _, steps => steps.length + 1

/-- The events of a whole pipeline: of every step, in order, and of the pipeline after them. -/
def WholeBlock (invocation : String) (args : List Expr) (events : List Event) : Prop :=
  ∃ seed steps traces, Expr.flatten args = seed :: steps ∧ traces.length = steps.length ∧
    (∀ i e, steps[i]? = some e → ∃ step, Step.ofExpr (i + 1) e = .ok step ∧
      traces[i]? = some (.step (i + 1) step.kind step.binding)) ∧
    events = traces ++ [.pipeline invocation steps.length (statementCount seed steps)]

theorem Step.event_ofExprs {index : Nat} {es : List Expr} {steps : List Step}
    (read : Step.ofExprs index es = .ok steps) {i : Nat} {e : Expr} (here : es[i]? = some e) :
    ∃ step, Step.ofExpr (index + i) e = .ok step ∧
      (steps.map Event.ofStep)[i]? = some (.step (index + i) step.kind step.binding) := by
  induction es generalizing index steps i with
  | nil => cases here
  | cons first es ih =>
      obtain ⟨step, others, head, follow, rfl⟩ := Step.ofExprs_cons_eq_ok.mp read
      cases i with
      | zero =>
          cases here
          refine ⟨step, head, ?_⟩
          rw [List.map_cons, List.getElem?_cons_zero, Event.ofStep, Step.index_ofExpr head]
          rfl
      | succ i =>
          obtain ⟨found, read, event⟩ := ih follow here
          rw [Nat.add_assoc, Nat.add_comm 1] at read event
          exact ⟨found, read, event⟩

theorem length_nameSeed {seed : Expr} {start : List Statement} {current : String}
    {supply rest : Supply} {steps : List Expr}
    (named : nameSeed seed supply = .ok (start, current, rest)) (some : steps ≠ []) :
    start.length + steps.length = statementCount seed steps := by
  obtain ⟨step, others, rfl⟩ := List.exists_cons_of_ne_nil some
  rcases nameSeed_cases named with ⟨rfl, rfl, _⟩ | ⟨value, rfl, rfl, _⟩ | ⟨_, unnamed, rfl, _⟩
  · simp [statementCount]
  · simp [statementCount, Nat.add_comm]
  · cases seed with
    | name x => cases unnamed
    | _ => simp [statementCount, Nat.add_comm]

theorem length_thread {index : Nat} {seed : Expr} {es : List Expr} {steps : List Step}
    {threaded : Threaded} {supply rest : Supply} (read : Step.ofExprs index es = .ok steps)
    (done : thread invocation seed steps supply = .ok (threaded, rest)) :
    threaded.statements.length = statementCount seed es := by
  cases es with
  | nil =>
      cases read
      cases done
      rfl
  | cons e es =>
      have many := Step.length_ofExprs read
      have some : steps ≠ [] := List.ne_nil_of_length_eq_add_one many
      obtain ⟨start, current, middle, named, statements, _, _⟩ := (thread_eq_ok some).mp done
      rw [statements, List.length_append, length_threadSteps, many,
        length_nameSeed named (List.cons_ne_nil e es)]

theorem wholeBlock_events {args : List Expr} {pipeline : Pipeline} {threaded : Threaded}
    {supply rest : Supply}
    (accepted : threadArguments invocation args supply = .ok (pipeline, threaded, rest)) :
    WholeBlock invocation args (pipeline.events invocation threaded) := by
  obtain ⟨read, done⟩ := threadArguments_eq_ok.mp accepted
  obtain ⟨es, split, follow⟩ := Pipeline.ofArguments_eq_ok.mp read
  have many := Step.length_ofExprs follow
  refine ⟨pipeline.seed, es, pipeline.steps.map Event.ofStep, split, by simp [many], ?_, ?_⟩
  · intro i e here
    obtain ⟨step, found, event⟩ := Step.event_ofExprs follow here
    rw [Nat.add_comm] at found event
    exact ⟨step, found, event⟩
  · rw [Pipeline.events, many, length_thread follow done]

/-- Works through an agenda of trees from the front on: a tree that is no pipeline makes room for its
parts, and a pipeline for the expression that it is threaded into. The arguments of the pipelines
that are threaded are kept in order. The first pipeline that is refused ends it all. -/
inductive WorksThrough (invocation : String) :
    List Expr → Supply → List (List Expr) → Except Error Supply → Prop where
  | done (supply : Supply) : WorksThrough invocation [] supply [] (.ok supply)
  | parts (plain : e.isInvocation invocation = false)
      (inside : WorksThrough invocation (e.children ++ agenda) supply pipelines ended) :
      WorksThrough invocation (e :: agenda) supply pipelines ended
  | threaded (accepted : threadArguments invocation args supply = .ok (pipeline, threaded, middle))
      (inside : WorksThrough invocation (threaded.toExpr :: agenda) middle pipelines ended) :
      WorksThrough invocation (.call (.name invocation) args :: agenda) supply (args :: pipelines)
        ended
  | refused (agenda : List Expr) (refused : threadArguments invocation args supply = .error cause) :
      WorksThrough invocation (.call (.name invocation) args :: agenda) supply [] (.error cause)

/-- Every agenda comes to its end, as a pipeline goes with an opening and other trees with a node. -/
theorem exists_worksThrough (invocation : String) (agenda : List Expr) (supply : Supply) :
    ∃ pipelines ended, WorksThrough invocation agenda supply pipelines ended := by
  match agenda with
  | [] => exact ⟨[], .ok supply, .done supply⟩
  | e :: agenda =>
      cases opened : e.isInvocation invocation with
      | false =>
          obtain ⟨pipelines, ended, inside⟩ :=
            exists_worksThrough invocation (e.children ++ agenda) supply
          exact ⟨pipelines, ended, .parts opened inside⟩
      | true =>
          obtain ⟨args, same⟩ := Expr.isInvocation_iff.mp opened
          match accepted : threadArguments invocation args supply with
          | .error cause => exact ⟨[], .error cause, same ▸ .refused agenda accepted⟩
          | .ok (pipeline, threaded, rest) =>
              obtain ⟨pipelines, ended, inside⟩ :=
                exists_worksThrough invocation (threaded.toExpr :: agenda) rest
              exact ⟨args :: pipelines, ended, same ▸ .threaded accepted inside⟩
termination_by (Expr.openingsOf invocation agenda, Expr.totalSize agenda)
decreasing_by
  · have fewer : Expr.openingsOf invocation e.children ≤ e.openings invocation :=
      e.openingsOf_children_le
    have smaller := e.size_eq_children
    simp only [Expr.openingsOf_append, Expr.openingsOf, Expr.totalSize_append, Expr.totalSize]
    exact Prod.Lex.right' _ (by omega) (by omega)
  · have fewer := openings_threadArguments_lt accepted
    simp only [same, Expr.openingsOf]
    exact Prod.Lex.left _ _ (by omega)

/-- Expansion of an agenda, where only the supply that it leaves is kept. -/
def expandAgenda (invocation : String) (agenda : List Expr) (supply : Supply) : Traced Supply := do
  let (_, rest) ← Expr.expandAll invocation agenda supply
  return rest

theorem expandAgenda_nil (supply : Supply) : expandAgenda invocation [] supply = pure supply := by
  simp [expandAgenda, Expr.expandAll]

theorem expandAgenda_append (agenda others : List Expr) (supply : Supply) :
    expandAgenda invocation (agenda ++ others) supply = (do
      let rest ← expandAgenda invocation agenda supply
      expandAgenda invocation others rest) := by
  simp [expandAgenda, Expr.expandAll_append]

theorem expandAgenda_singleton (e : Expr) (supply : Supply) :
    expandAgenda invocation [e] supply = (do
      let (_, rest) ← e.expand invocation supply
      return rest) := by
  simp [expandAgenda, Expr.expandAll]

theorem expandAgenda_parts {e : Expr} (plain : e.isInvocation invocation = false)
    (agenda : List Expr) (supply : Supply) :
    expandAgenda invocation (e :: agenda) supply =
      expandAgenda invocation (e.children ++ agenda) supply := by
  have whole : expandAgenda invocation [e] supply = expandAgenda invocation e.children supply := by
    rw [expandAgenda_singleton, Expr.expand_parts plain, expandAgenda]
    simp
  rw [← List.singleton_append, expandAgenda_append, whole, ← expandAgenda_append]

theorem expandAgenda_pipeline (args agenda : List Expr) (supply : Supply) :
    expandAgenda invocation (.call (.name invocation) args :: agenda) supply = (do
      let (threaded, rest) ← reportArguments invocation args supply
      expandAgenda invocation (threaded.toExpr :: agenda) rest) := by
  have whole : expandAgenda invocation [.call (.name invocation) args] supply = (do
      let (threaded, rest) ← reportArguments invocation args supply
      expandAgenda invocation [threaded.toExpr] rest) := by
    simp only [expandAgenda_singleton]
    cases accepted : threadArguments invocation args supply with
    | error cause =>
        rw [Expr.expand_refused accepted, reportArguments_eq, accepted]
        rfl
    | ok parts =>
        rw [Expr.expand_threaded accepted, reportArguments_eq, accepted]
        simp [Traced.ofExcept_ok]
  rw [← List.singleton_append, expandAgenda_append, whole, bind_assoc]
  simp only [← expandAgenda_append, List.singleton_append]

/-- What is reported on the way through an agenda is a whole block for each pipeline that is
threaded, one after another. -/
theorem WorksThrough.reports {agenda : List Expr} {supply : Supply} {pipelines : List (List Expr)}
    {ended : Except Error Supply} (run : WorksThrough invocation agenda supply pipelines ended) :
    (expandAgenda invocation agenda supply).outcome = ended ∧
      ∃ blocks, List.Forall₂ (WholeBlock invocation) pipelines blocks ∧
        (expandAgenda invocation agenda supply).events = blocks.flatten := by
  induction run with
  | done supply =>
      rw [expandAgenda_nil]
      exact ⟨rfl, [], .nil, rfl⟩
  | parts plain _ ih =>
      rw [expandAgenda_parts plain]
      exact ih
  | threaded accepted _ ih =>
      obtain ⟨outcome, blocks, whole, events⟩ := ih
      rw [expandAgenda_pipeline, reportArguments_eq, accepted]
      refine ⟨outcome, _ :: blocks, .cons (wholeBlock_events accepted) whole, ?_⟩
      rw [List.flatten_cons, ← events]
      simp [Traced.ofExcept_ok, Traced.events_report_bind]
  | refused agenda refused =>
      rw [expandAgenda_pipeline, reportArguments_eq, refused]
      exact ⟨rfl, [], .nil, rfl⟩

namespace Config

/-- Whether it succeeds or fails, an expansion reports a whole block for each pipeline that it
threads, in order and one after another, and nothing else. -/
theorem expand_reports_whole_blocks (config : Config) (e : Expr) :
    (∃ pipelines ended,
      WorksThrough config.invocation [e] (.ofRoots config.stem [e]) pipelines ended) ∧
    ∀ pipelines ended,
      WorksThrough config.invocation [e] (.ofRoots config.stem [e]) pipelines ended →
      (∀ cause, (config.expand e).outcome = .error cause ↔ ended = .error cause) ∧
      ∃ blocks, List.Forall₂ (WholeBlock config.invocation) pipelines blocks ∧
        (config.expand e).events = blocks.flatten := by
  refine ⟨exists_worksThrough _ _ _, fun pipelines ended run => ?_⟩
  obtain ⟨rfl, reported⟩ := run.reports
  rw [expandAgenda_singleton] at reported ⊢
  rw [Traced.events_bind_pure] at reported
  rw [expand, Traced.events_bind_pure]
  refine ⟨fun cause => ?_, reported⟩
  rw [Traced.outcome_bind_pure_eq_error, Traced.outcome_bind_pure_eq_error]

/-- In `@chain(x, f(@chain(_, g)))` the inner pipeline is reported after the outer one, and of
`@chain(@aside y, h)` behind them not even the step. -/
theorem expand_reports_before_refusal :
    WorksThrough "@chain" [.block [.call (.name "@chain") [.name "x",
        .call (.name "f") [.call (.name "@chain") [.hole, .name "g"]]],
        .call (.name "@chain") [.marked .aside (.name "y"), .name "h"]]]
      ⟨"__chain_", 0, ["@chain", "x", "f", "@chain", "g", "@chain", "y", "h"]⟩
      [[.name "x", .call (.name "f") [.call (.name "@chain") [.hole, .name "g"]]],
        [.name "x", .name "g"]]
      (.error (.markerAsSeed 0 "@aside y")) ∧
    (∃ blocks, List.Forall₂ (WholeBlock "@chain")
      [[.name "x", .call (.name "f") [.call (.name "@chain") [.hole, .name "g"]]],
        [.name "x", .name "g"]] blocks ∧
      (expand {} (.block [.call (.name "@chain") [.name "x",
        .call (.name "f") [.call (.name "@chain") [.hole, .name "g"]]],
        .call (.name "@chain") [.marked .aside (.name "y"), .name "h"]])).events =
        blocks.flatten) ∧
    expand {} (.block [.call (.name "@chain") [.name "x",
        .call (.name "f") [.call (.name "@chain") [.hole, .name "g"]]],
        .call (.name "@chain") [.marked .aside (.name "y"), .name "h"]]) =
      ⟨[.step 1 .plain none, .pipeline "@chain" 1 1, .step 1 .plain none, .pipeline "@chain" 1 1],
        .error (.markerAsSeed 0 "@aside y")⟩ := by
  have outer : threadArguments "@chain"
      [.name "x", .call (.name "f") [.call (.name "@chain") [.hole, .name "g"]]]
      ⟨"__chain_", 0, ["@chain", "x", "f", "@chain", "g", "@chain", "y", "h"]⟩ =
      .ok (⟨.name "x",
          [⟨1, .plain, none, .call (.name "f") [.call (.name "@chain") [.hole, .name "g"]]⟩]⟩,
        ⟨[⟨.temp "__chain_1", .call (.name "f") [.call (.name "@chain") [.name "x", .name "g"]]⟩],
          .name "__chain_1"⟩,
        ⟨"__chain_", 1, ["@chain", "x", "f", "@chain", "g", "@chain", "y", "h"]⟩) := by cbv
  have inner : threadArguments "@chain" [.name "x", .name "g"]
      ⟨"__chain_", 1, ["@chain", "x", "f", "@chain", "g", "@chain", "y", "h"]⟩ =
      .ok (⟨.name "x", [⟨1, .plain, none, .name "g"⟩]⟩,
        ⟨[⟨.temp "__chain_2", .call (.name "g") [.name "x"]⟩], .name "__chain_2"⟩,
        ⟨"__chain_", 2, ["@chain", "x", "f", "@chain", "g", "@chain", "y", "h"]⟩) := by cbv
  have run : WorksThrough "@chain" [.block [.call (.name "@chain") [.name "x",
        .call (.name "f") [.call (.name "@chain") [.hole, .name "g"]]],
        .call (.name "@chain") [.marked .aside (.name "y"), .name "h"]]]
      ⟨"__chain_", 0, ["@chain", "x", "f", "@chain", "g", "@chain", "y", "h"]⟩
      [[.name "x", .call (.name "f") [.call (.name "@chain") [.hole, .name "g"]]],
        [.name "x", .name "g"]]
      (.error (.markerAsSeed 0 "@aside y")) := by
    refine .parts rfl (.threaded outer ?_)
    repeat refine .parts rfl ?_
    refine .threaded inner ?_
    repeat refine .parts rfl ?_
    exact .refused [] (by cbv)
  exact ⟨run, ((expand_reports_whole_blocks {} _).2 _ _ run).2, by cbv⟩

end Config

end Pipelines
