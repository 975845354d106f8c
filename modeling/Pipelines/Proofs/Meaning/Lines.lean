import Pipelines.Proofs.Meaning.Passing

namespace Pipelines

universe u

variable {V S : Type u} {invocation : String} {hidden : String → Prop}

section

open Supply (Later Drawn)

variable {supply middle rest : Supply} (given : Interpretation V S) (outer : V)

/-- Runs lines for their effect and reads a name at the end. -/
def runLines (invocation : String) (given : Interpretation V S) (current : V) (lines : List Expr)
    (last : String) : StateM (World V S) V := do
  let _ ← Expr.runAll invocation given current lines
  World.read last

theorem run_statement (statement : Statement) :
    statement.toExpr.run invocation given outer = (do
      let result ← statement.value.run invocation given outer
      World.store statement.binding.name? result
      return result) := by
  cases named : statement.binding.name? with
  | none => simp [Statement.toExpr, named, World.store_none]
  | some x => simp [Statement.toExpr, named, Expr.run, Expr.name?]

theorem runLines_cons (statement : Statement) (lines : List Expr) (last : String) :
    runLines invocation given outer (statement.toExpr :: lines) last = (do
      let result ← statement.value.run invocation given outer
      World.store statement.binding.name? result
      runLines invocation given outer lines last) := by
  simp [runLines, Expr.runAll, run_statement]

theorem runAll_append (es fs : List Expr) :
    Expr.runAll invocation given outer (es ++ fs) = (do
      let first ← Expr.runAll invocation given outer es
      let second ← Expr.runAll invocation given outer fs
      return first ++ second) := by
  induction es with
  | nil => simp [Expr.runAll]
  | cons e es ih => simp [Expr.runAll, ih]

theorem run_block_last (lines : List Expr) (last : String) :
    (Expr.block (lines ++ [.name last])).run invocation given outer =
      runLines invocation given outer lines last := by
  simp [Expr.run, runLines, runAll_append, Expr.runAll]

theorem SteadyAll.of_forall {es : List Expr} (steady : ∀ e ∈ es, Steady invocation .outside e) :
    SteadyAll invocation .outside es := by
  induction es with
  | nil => exact .nil
  | cons e es ih =>
      obtain ⟨head, tail⟩ := List.forall_mem_cons.mp steady
      exact .cons head (fun _ named => by cases named) (ih tail)

theorem Steady.lines {statements : List Statement} (last : String)
    (steady : ∀ statement ∈ statements, Steady invocation .outside statement.toExpr) :
    Steady invocation .outside (.block (statements.map Statement.toExpr ++ [.name last])) := by
  refine .block (.of_forall fun line member => ?_)
  rcases List.mem_append.mp member with among | atEnd
  · obtain ⟨statement, inside, rfl⟩ := List.mem_map.mp among
    exact steady statement inside
  · cases List.mem_singleton.mp atEnd
    exact .name last

theorem Steady.statement {statement : Statement} (steady : Steady invocation .outside statement.value) :
    Steady invocation .outside statement.toExpr := by
  unfold Statement.toExpr
  split
  · exact .assign (Expr.settled_name _) steady
  · exact steady

theorem Step.steady_value {step : Step} {e : Expr} {index : Nat} {x : String}
    (read : Step.ofExpr index e = .ok step)
    (filled : step.expr.hasHole invocation = true → Steady invocation (.named x) step.expr)
    (inserted : step.expr.hasHole invocation = false → Receptive invocation (.named x) step.expr) :
    Steady invocation .outside (step.value invocation x) := by
  unfold Step.value
  by_cases broadcast : step.kind.isBroadcast = true
  · obtain ⟨f, named⟩ := Step.name_of_broadcast read broadcast
    rw [if_pos broadcast, named]
    refine .call (by simp [Expr.name?]) (by simp) (.of_forall ?_)
    simp only [List.forall_mem_cons]
    exact ⟨.marked .broadcast (.name f), .name x, by simp⟩
  rw [if_neg broadcast, Expr.feed]
  by_cases holes : step.expr.hasHole invocation = true
  · rw [if_pos holes]
    exact (filled holes).fill rfl
  · rw [if_neg holes]
    rw [Bool.not_eq_true] at holes
    exact (inserted holes).withFirstArgument rfl holes

theorem Step.thread_steady {step : Step} {x name : String} {statement : Statement}
    {steps : List Step} (threaded : step.thread invocation x supply = (statement, name, rest))
    (tail : SteadySteps invocation ((Current.named x).after step) steps)
    (fresh : Drawn supply rest name →
      (∀ other ∈ steps, name ∉ other.expr.names) ∧ name ≠ invocation) :
    SteadySteps invocation (.named name) steps := by
  obtain ⟨_, _, cases⟩ := Step.thread_cases threaded
  rcases cases with ⟨aside, _, rfl⟩ | ⟨bound, author, _⟩ | ⟨bound, unbound, _, drawn⟩
  · rwa [Current.after_of_aside aside] at tail
  · rwa [Current.after_of_bound bound, author] at tail
  · rw [Current.after_of_bound bound, unbound] at tail
    obtain ⟨absent, other⟩ := fresh drawn
    exact tail.named rfl absent other

/-- A threaded step runs like the step, and then the lines behind it go on like the steps behind
it. -/
theorem Step.thread_simulates {step : Step} {e : Expr} {index : Nat} {x name last : String}
    {statement : Statement} {lines : List Expr} {value : V} {next : V → StateM (World V S) V}
    (read : Step.ofExpr index e = .ok step)
    (threaded : step.thread invocation x supply = (statement, name, rest))
    (kept : step.kind = .aside → x ∉ step.expr.assigned)
    (filled : step.expr.hasHole invocation = true → Steady invocation (.named x) step.expr)
    (inserted : step.expr.hasHole invocation = false → Receptive invocation (.named x) step.expr)
    (visible : ∀ y ∈ step.expr.names, ¬ hidden y) (invisible : Drawn supply rest name → hidden name)
    (follow : ∀ value, Simulates hidden (some (name, value)) none
      (runLines invocation given outer lines last) (next value)) :
    Simulates hidden (some (x, value)) none
      (runLines invocation given outer (statement.toExpr :: lines) last)
      (do
        let result ← step.run invocation given value
        World.store step.binding result
        next (if step.kind = .aside then value else result)) := by
  obtain ⟨received, _, cases⟩ := Step.thread_cases threaded
  have result : ∀ {after}, HeldAfter x value step.expr.assigned after →
      Simulates hidden (some (x, value)) after
        ((step.value invocation x).run invocation given outer) (step.run invocation given value) :=
    Step.value_simulates given outer read filled inserted visible
  rw [runLines_cons, received]
  rcases cases with ⟨aside, discard, rfl⟩ | ⟨bound, author, user⟩ | ⟨bound, unbound, temp, drawn⟩
  · have unbound := Step.binding_of_aside read aside
    simp only [discard, unbound, Binding.name?, if_pos aside]
    exact (result (.same value (kept aside))).bind fun r =>
      (Simulates.store r (by simp)).bind fun _ => follow value
  · simp only [user, author, Binding.name?, if_neg bound]
    exact (result (.released x value _)).bind fun r =>
      (Simulates.store_held name r).bind fun _ => follow r
  · simp only [temp, unbound, Binding.name?, if_neg bound]
    exact (result (.released x value _)).bind fun r =>
      (Simulates.store_hidden (invisible drawn) r).bind fun _ => follow r

/-- Steps that are threaded from a name on are steady lines, and they run like the steps from the
value of the name on. -/
theorem threadSteps_preserves {index : Nat} {es : List Expr} {steps : List Step} {x : String}
    (read : Step.ofExprs index es = .ok steps) (steady : SteadySteps invocation (.named x) steps)
    (visible : ∀ step ∈ steps, ∀ y ∈ step.expr.names, ¬ hidden y) (written : ¬ hidden invocation)
    (invisible : ∀ y, Drawn supply (threadSteps invocation steps x supply).2.2 y → hidden y) :
    (∀ statement ∈ (threadSteps invocation steps x supply).1,
      Steady invocation .outside statement.toExpr) ∧
    ∀ value, Simulates hidden (some (x, value)) none
      (runLines invocation given outer
        ((threadSteps invocation steps x supply).1.map Statement.toExpr)
        (threadSteps invocation steps x supply).2.1)
      (runSteps invocation given steps value) := by
  induction steps generalizing index es x supply with
  | nil =>
      simp only [threadSteps, List.map_nil, runLines, Expr.runAll, pure_bind, runSteps]
      refine ⟨by simp, fun value => ?_⟩
      have released : HeldAfter x value [] none := .inl rfl
      exact released.leave (.read_held x value)
  | cons step steps ih =>
      cases es with
      | nil => cases read
      | cons e es =>
          obtain ⟨_, _, reads, follow, same⟩ := Step.ofExprs_cons_eq_ok.mp read
          cases same
          obtain ⟨here, others⟩ := List.forall_mem_cons.mp visible
          rcases threaded : step.thread invocation x supply with ⟨statement, name, after⟩
          obtain ⟨received, later, _⟩ := Step.thread_cases threaded
          simp only [threadSteps, threaded, List.map_cons, List.forall_mem_cons] at invisible ⊢
          have secret := fun (drawn : Drawn supply after name) =>
            invisible name (drawn.extend (threadSteps_later invocation steps name after))
          cases steady with
          | cons kept filled inserted tail =>
              have renamed := Step.thread_steady threaded tail fun drawn =>
                ⟨fun other among member => others other among name member (secret drawn),
                  fun same => written (same ▸ secret drawn)⟩
              obtain ⟨lines, runs⟩ := ih follow renamed others
                fun y drawn => invisible y (drawn.before later)
              refine ⟨⟨.statement (received ▸ Step.steady_value reads filled inserted), lines⟩,
                fun value => ?_⟩
              rw [runSteps]
              exact Step.thread_simulates given outer reads threaded (fun aside => kept aside x rfl)
                filled inserted here secret runs

theorem nameSeed_steady {seed : Expr} {start : List Statement} {current : String}
    (named : nameSeed seed supply = .ok (start, current, rest))
    (steady : Steady invocation .outside seed) :
    ∀ statement ∈ start, Steady invocation .outside statement.toExpr := by
  intro statement member
  rcases nameSeed_cases named with ⟨_, rfl, _⟩ | ⟨value, rfl, rfl, _⟩ | ⟨_, _, rfl, _⟩
  · cases member
  · cases List.mem_singleton.mp member
    exact steady
  · cases List.mem_singleton.mp member
    exact .statement steady

theorem SteadySteps.of_nameSeed {seed : Expr} {start : List Statement} {current : String}
    {steps : List Step} (named : nameSeed seed supply = .ok (start, current, rest))
    (steady : SteadySteps invocation (Current.ofSeed .outside seed) steps)
    (fresh : Drawn supply rest current →
      (∀ step ∈ steps, current ∉ step.expr.names) ∧ current ≠ invocation) :
    SteadySteps invocation (.named current) steps := by
  rcases nameSeed_cases named with ⟨rfl, _⟩ | ⟨value, rfl, _⟩ | ⟨plain, unnamed, _, next⟩
  · exact steady
  · exact steady
  · rw [ofSeed_of_plain plain unnamed] at steady
    obtain ⟨absent, other⟩ := fresh (Supply.drawn_of_eq_next next)
    exact steady.named rfl absent other

/-- A named seed runs like the seed, and then the lines behind it go on like the steps. -/
theorem nameSeed_simulates {seed : Expr} {start : List Statement} {current last : String}
    {lines : List Expr} {next : V → StateM (World V S) V}
    (named : nameSeed seed supply = .ok (start, current, rest))
    (respects : Respects hidden (none : Option (String × V)) seed.names seed.assigned)
    (invisible : Drawn supply rest current → hidden current)
    (follow : ∀ value, Simulates hidden (some (current, value)) none
      (runLines invocation given outer lines last) (next value)) :
    Simulates hidden none none
      (runLines invocation given outer (start.map Statement.toExpr ++ lines) last)
      (seed.run invocation given outer >>= next) := by
  rcases nameSeed_cases named with ⟨rfl, rfl, _⟩ | ⟨value, rfl, rfl, _⟩ | ⟨_, _, rfl, drawn⟩
  · rw [Expr.run]
    exact .read_then (respects.visible current (by simp [Expr.names])) follow
  · have within : Respects hidden (none : Option (String × V)) value.names value.assigned :=
      respects.mono (List.subset_append_right _ _) (List.subset_append_right _ _)
    rw [List.map_singleton, List.singleton_append, runLines_cons, Expr.run]
    simp only [bind_assoc, pure_bind, Binding.name?, Expr.name?]
    exact (within.run invocation given outer).bind fun result =>
      (Simulates.store_held current result).bind fun _ => follow result
  · rw [List.map_singleton, List.singleton_append, runLines_cons]
    refine (respects.run invocation given outer).bind fun result => ?_
    -- The seed itself stores nothing, so storing nothing stands in for it.
    rw [← pure_bind PUnit.unit fun _ => next result, ← World.store_none result]
    exact (Simulates.store_hidden (invisible (Supply.drawn_of_eq_next drawn)) result).bind
      fun _ => follow result

/-- What a steady pipeline is threaded into is steady and runs like the pipeline, apart from the
names that have been drawn for it. -/
theorem pipeline_preserves {args : List Expr} {pipeline : Pipeline} {threaded : Threaded}
    (accepted : threadArguments invocation args supply = .ok (pipeline, threaded, rest))
    (steady : Steady invocation .outside (.call (.name invocation) args))
    (visible : ∀ y ∈ (Expr.call (.name invocation) args).names, ¬ hidden y)
    (invisible : ∀ y, Drawn supply rest y → hidden y) :
    Steady invocation .outside threaded.toExpr ∧
    Simulates hidden none none (threaded.toExpr.run invocation given outer)
      ((Expr.call (.name invocation) args).run invocation given outer) := by
  obtain ⟨read, done⟩ := threadArguments_eq_ok.mp accepted
  obtain ⟨es, _, follow⟩ := Pipeline.ofArguments_eq_ok.mp read
  have written : ¬ hidden invocation := visible invocation (by simp [Expr.names])
  have respects : Respects hidden (none : Option (String × V)) (Expr.namesOf args)
      (Expr.assignedOf args) :=
    .of_visible fun y member => visible y (List.mem_append_right _ member)
  obtain ⟨seedRespects, stepsRespect⟩ := respects.pipeline read
  have stepsVisible := fun step among => (stepsRespect step among).visible
  cases steady with
  | call plain => exact absurd rfl plain
  | pipeline _ again first others =>
      rw [read] at again
      cases again
      rw [Expr.run_accepted given read]
      by_cases none : pipeline.steps = []
      · rw [none, thread_nil] at done
        cases done
        refine ⟨first, ?_⟩
        have seedRuns := seedRespects.run invocation given outer
        simpa [none, runSteps, Threaded.toExpr] using seedRuns
      obtain ⟨start, current, middle, named, statements, final, rfl⟩ := (thread_eq_ok none).mp done
      have secret := fun (drawn : Drawn supply middle current) =>
        invisible current (drawn.extend (threadSteps_later invocation pipeline.steps current middle))
      have renamed := SteadySteps.of_nameSeed named others fun drawn =>
        ⟨fun step among member => stepsVisible step among current member (secret drawn),
          fun same => written (same ▸ secret drawn)⟩
      obtain ⟨lines, runs⟩ := threadSteps_preserves given outer follow renamed stepsVisible written
        fun y drawn => invisible y (drawn.before (nameSeed_later named))
      rw [toExpr_of_steps none done, statements, final]
      refine ⟨.lines _ fun statement member => ?_, ?_⟩
      · rcases List.mem_append.mp member with atStart | behind
        · exact nameSeed_steady named first statement atStart
        · exact lines statement behind
      · rw [run_block_last, List.map_append]
        exact nameSeed_simulates given outer named seedRespects secret runs

end

end Pipelines
