import Pipelines.Proofs.Assigned

namespace Pipelines

open Supply (Later Drawn)

variable {invocation : String} {supply middle rest : Supply}

/-- Lines of which one binds a name that the lines in front do not contain and the lines behind do
not assign. -/
def Introduces (invocation x : String) (lines : List Expr) : Prop :=
  ∃ before value after, lines = before ++ .assign (.name x) value :: after ∧
    x ∉ Expr.namesOf before ∧ x ∉ value.names ∧
    ∀ target ∈ Expr.targetsOf after, Clear invocation x target

theorem Introduces.prepend {x : String} {front lines : List Expr} (absent : x ∉ Expr.namesOf front)
    (introduces : Introduces invocation x lines) : Introduces invocation x (front ++ lines) := by
  obtain ⟨before, value, after, rfl, earlier, inside, behind⟩ := introduces
  refine ⟨front ++ before, value, after, by simp, ?_, inside, behind⟩
  rw [Expr.namesOf_append, List.mem_append, not_or]
  exact ⟨absent, earlier⟩

theorem Introduces.append_name {x : String} {lines : List Expr}
    (introduces : Introduces invocation x lines) (y : String) :
    Introduces invocation x (lines ++ [.name y]) := by
  obtain ⟨before, value, after, rfl, front, inside, behind⟩ := introduces
  refine ⟨before, value, after ++ [.name y], by simp, front, inside, ?_⟩
  simpa [Expr.targetsOf_eq_flatMap] using behind

theorem Step.thread_draws {step : Step} {current name x : String} {statement : Statement}
    (threaded : step.thread invocation current supply = (statement, name, rest))
    (drawn : Drawn supply rest x) : statement.binding = .temp x := by
  by_cases aside : step.kind = .aside
  · rw [Step.thread_aside aside] at threaded
    cases threaded
    exact absurd drawn.1 drawn.2
  · rw [Step.thread_bound aside] at threaded
    cases author : step.binding with
    | some y =>
        rw [author] at threaded
        cases threaded
        exact absurd drawn.1 drawn.2
    | none =>
        rw [author] at threaded
        cases threaded
        rw [drawn.eq_next]
        rfl

theorem threadSteps_clear {index : Nat} {es : List Expr} {steps : List Step} {current x : String}
    (other : x ≠ invocation) (read : Step.ofExprs index es = .ok steps)
    (absent : x ∉ Expr.namesOf es) (behind : ¬ supply.Ahead x)
    (settled : ∀ target ∈ Expr.targetsOf es, ¬ TakesName invocation target) :
    ∀ target ∈ Expr.targetsOf
        ((threadSteps invocation steps current supply).1.map Statement.toExpr),
      Clear invocation x target := by
  have clear : ∀ statement ∈ (threadSteps invocation steps current supply).1,
      ∀ target ∈ statement.toExpr.targets, Clear invocation x target := by
    refine threadSteps_forall_targets (Clear.fill other) read (fun target member => ?_)
      fun y drawn => .name fun same => behind (same ▸ drawn.1)
    have inside := Expr.names_subset_of_mem_targetsOf es member
    exact ⟨fun may => absent (inside may.mem_names), settled target member⟩
  intro target member
  rw [Expr.targetsOf_eq_flatMap, List.flatMap_map, List.mem_flatMap] at member
  obtain ⟨statement, among, inside⟩ := member
  exact clear statement among target inside

/-- The lines that steps are threaded into introduce every name that threading draws. -/
theorem threadSteps_introduces {index : Nat} {es : List Expr} {steps : List Step}
    {current x : String} (other : x ≠ invocation) (read : Step.ofExprs index es = .ok steps)
    (written : ∀ y ∈ Expr.namesOf es, ¬ supply.Ahead y) (old : ¬ supply.Ahead current)
    (settled : ∀ target ∈ Expr.targetsOf es, ¬ TakesName invocation target)
    (drawn : Drawn supply (threadSteps invocation steps current supply).2.2 x) :
    Introduces invocation x
      ((threadSteps invocation steps current supply).1.map Statement.toExpr) := by
  induction es generalizing index steps current supply with
  | nil =>
      cases read
      exact absurd drawn.1 drawn.2
  | cons e es ih =>
      obtain ⟨step, others, first, follow, rfl⟩ := Step.ofExprs_cons_eq_ok.mp read
      rcases threaded : step.thread invocation current supply with ⟨statement, name, after⟩
      obtain ⟨value, later, _⟩ := Step.thread_cases threaded
      obtain ⟨inExpr, inBinding⟩ := Step.names_ofExpr first
      simp only [Expr.namesOf, List.forall_mem_append] at written
      rw [Expr.targetsOf_cons, List.forall_mem_append] at settled
      obtain ⟨named, inLine⟩ := Step.thread_names (¬ after.Ahead ·) threaded
        (fun ahead => old (later.ahead ahead))
        (fun y member ahead => written.1 y (inExpr member) (later.ahead ahead))
        (fun y author ahead => written.1 y (inBinding y author) (later.ahead ahead))
        fun y fresh => fresh.2
      simp only [threadSteps, threaded] at drawn
      simp only [threadSteps, threaded, List.map_cons]
      -- If a later step draws the name, then this line stands in front of where it is bound.
      by_cases ahead : after.Ahead x
      · have stepped := ih follow (fun y member reached =>
          written.2 y member (later.ahead reached)) named settled.2 ⟨ahead, drawn.2⟩
        have absent : x ∉ Expr.namesOf [statement.toExpr] := fun member =>
          inLine x (by simpa [Expr.namesOf] using member) ahead
        exact stepped.prepend absent
      · have bound := Step.thread_draws threaded ⟨drawn.1, ahead⟩
        have line : statement.toExpr = .assign (.name x) statement.value := by
          simp [Statement.toExpr, bound, Binding.name?]
        have inValue : x ∉ statement.value.names := by
          intro member
          rw [value] at member
          rcases List.mem_append.mp (step.names_value invocation current member) with inside | here
          · exact written.1 x (inExpr inside) drawn.1
          · exact old (List.mem_singleton.mp here ▸ drawn.1)
        rw [line]
        refine ⟨[], statement.value, _, rfl, by simp [Expr.namesOf], inValue, ?_⟩
        exact threadSteps_clear other follow (fun member => written.2 x member drawn.1) ahead
          settled.2

theorem threadArguments_introduces {args : List Expr} {pipeline : Pipeline} {threaded : Threaded}
    {x : String} (accepted : threadArguments invocation args supply = .ok (pipeline, threaded, rest))
    (other : x ≠ invocation) (written : ∀ y ∈ Expr.namesOf args, ¬ supply.Ahead y)
    (settled : ∀ target ∈ Expr.targetsOf args, ¬ TakesName invocation target)
    (drawn : Drawn supply rest x) :
    ∃ lines, threaded.toExpr = .block lines ∧ Introduces invocation x lines := by
  obtain ⟨read, done⟩ := threadArguments_eq_ok.mp accepted
  obtain ⟨es, split, follow⟩ := Pipeline.ofArguments_eq_ok.mp read
  by_cases none : pipeline.steps = []
  · rw [none, thread_nil] at done
    cases done
    exact absurd drawn.1 drawn.2
  obtain ⟨start, current, middle, named, statements, final, rfl⟩ := (thread_eq_ok none).mp done
  rw [← Expr.namesOf_flatten, split] at written
  rw [← Expr.targetsOf_flatten, split, Expr.targetsOf_cons, List.forall_mem_append] at settled
  simp only [Expr.namesOf, List.forall_mem_append] at written
  have later := nameSeed_later named
  have inSteps : ∀ y ∈ Expr.namesOf es, ¬ middle.Ahead y := fun y member ahead =>
    written.2 y member (later.ahead ahead)
  have known : ∀ y, y ∈ pipeline.seed.names ∨ Drawn supply middle y → ¬ middle.Ahead y := by
    intro y known ahead
    rcases known with seeded | fresh
    · exact written.1 y seeded (later.ahead ahead)
    · exact fresh.2 ahead
  obtain ⟨first, seeded⟩ := nameSeed_names named
  refine ⟨_, toExpr_of_steps none done, ?_⟩
  rw [statements, final, List.map_append, List.append_assoc]
  by_cases ahead : middle.Ahead x
  · have stepped := (threadSteps_introduces other follow inSteps (known current first) settled.2
      ⟨ahead, drawn.2⟩).append_name (threadSteps invocation pipeline.steps current middle).2.1
    refine stepped.prepend fun member => ?_
    rw [Expr.namesOf_eq_flatMap, List.flatMap_map, List.mem_flatMap] at member
    obtain ⟨statement, among, inside⟩ := member
    exact known x (seeded statement among x inside) ahead
  · rcases nameSeed_cases named with ⟨_, _, rfl⟩ | ⟨_, _, _, rfl⟩ | ⟨_, _, rfl, next⟩
    · exact absurd drawn.1 ahead
    · exact absurd drawn.1 ahead
    · have supplied : middle = supply.next.2 := congrArg Prod.snd next
      have same : x = current := by
        rw [supplied] at ahead
        rw [Supply.Drawn.eq_next ⟨drawn.1, ahead⟩]
        exact (congrArg Prod.fst next).symm
      subst same
      refine ⟨[], pipeline.seed, _, rfl, by simp [Expr.namesOf],
        fun member => written.1 x member drawn.1, ?_⟩
      have clear : ∀ target ∈ Expr.targetsOf
          ((threadSteps invocation pipeline.steps x middle).1.map Statement.toExpr),
          Clear invocation x target :=
        threadSteps_clear other follow (fun member => written.2 x member drawn.1) ahead settled.2
      simpa [Expr.targetsOf_eq_flatMap] using clear

/-- A name that is assigned once, by a line of a block, and otherwise occurs only in the lines behind
that one. -/
structure BoundOnce (x : String) (e : Expr) : Prop where
  assigned : e.targets.count (.name x) = 1
  inBlock : ∃ before value after, .block (before ++ .assign (.name x) value :: after) ∈ e.nodes ∧
    e.names.count x = 1 + (Expr.namesOf after).count x

theorem Expr.nodes_eq_children (e : Expr) : e.nodes = e :: nodesOf e.children := by
  cases e <;> simp [nodes, nodesOf, children]

theorem Expr.names_eq_children {e : Expr} (inner : e.children ≠ []) :
    e.names = namesOf e.children := by
  cases e <;> simp_all [names, namesOf, children]

theorem Expr.targets_eq_children (e : Expr) :
    e.targets = e.target?.toList ++ targetsOf e.children := by
  cases e <;> simp [target?, children]

/-- A name that one part of a tree binds and no other contains is bound in the tree. -/
theorem BoundOnce.within {x : String} {part whole : Expr} {front behind : List Expr}
    (bound : BoundOnce x part) (parts : whole.children = front ++ part :: behind)
    (inFront : x ∉ Expr.namesOf front) (inBehind : x ∉ Expr.namesOf behind) :
    BoundOnce x whole := by
  have elsewhere : .name x ∉ whole.target?.toList := by
    cases whole with
    | assign target value =>
        intro member
        have same : target = .name x := by simpa [Expr.target?, eq_comm] using member
        cases front with
        | nil =>
            obtain ⟨rfl, _⟩ := List.cons.inj parts
            have assigned := bound.assigned
            simp [same] at assigned
        | cons first front =>
            obtain ⟨rfl, _⟩ := List.cons.inj parts
            exact inFront (by simp [same, Expr.namesOf, Expr.names])
    | _ => simp [Expr.target?]
  obtain ⟨before, value, after, member, counted⟩ := bound.inBlock
  refine ⟨?_, before, value, after, ?_, ?_⟩
  · have targetsFront := Expr.not_name_mem_targetsOf inFront
    have targetsBehind := Expr.not_name_mem_targetsOf inBehind
    rw [Expr.targets_eq_children, parts, Expr.targetsOf_append, Expr.targetsOf_cons,
      List.count_append, List.count_append, List.count_append,
      List.count_eq_zero.mpr elsewhere, List.count_eq_zero.mpr targetsFront,
      List.count_eq_zero.mpr targetsBehind, bound.assigned]
  · rw [Expr.nodes_eq_children, parts]
    exact List.mem_cons_of_mem _ (Expr.mem_nodesOf.mpr ⟨part, by simp, member⟩)
  · rw [Expr.names_eq_children (by simp [parts]), parts, Expr.namesOf_append, Expr.namesOf,
      List.count_append, List.count_append, List.count_eq_zero.mpr inFront,
      List.count_eq_zero.mpr inBehind, counted]
    omega

theorem BoundOnce.of_lines {x : String} {before after : List Expr} {value : Expr}
    (inFront : x ∉ Expr.namesOf before) (inValue : x ∉ value.names)
    (behind : .name x ∉ Expr.targetsOf after) :
    BoundOnce x (.block (before ++ .assign (.name x) value :: after)) := by
  have targetsFront := Expr.not_name_mem_targetsOf inFront
  have targetsValue := Expr.not_name_mem_targets inValue
  refine ⟨?_, before, value, after, Expr.mem_nodes_self _, ?_⟩
  · rw [Expr.targets_block, Expr.targetsOf_append, Expr.targetsOf_cons, List.count_append,
      List.count_append, List.count_eq_zero.mpr targetsFront, List.count_eq_zero.mpr behind]
    simp [List.count_eq_zero.mpr targetsValue]
  · rw [Expr.names, Expr.namesOf_append, Expr.namesOf, List.count_append, List.count_append,
      List.count_eq_zero.mpr inFront]
    simp [Expr.names, List.count_eq_zero.mpr inValue]

/-- Every name drawn by an expansion of a tree whose names are all taken, and of which no target
takes a name, is bound once in what it expands to. -/
def BindsDrawn (x : String) (invocation : String) (e : Expr) (supply : Supply) (expanded : Expr)
    (rest : Supply) : Prop :=
  (∀ y ∈ e.names, ¬ supply.Ahead y) → (∀ target ∈ e.targets, ¬ TakesName invocation target) →
    Drawn supply rest x → BoundOnce x expanded

theorem InTurn.boundOnce {es es' : List Expr} {x : String}
    (run : InTurn (fun e before e' after => ∃ _ : Expands invocation e before e' after,
      BindsDrawn x invocation e before e' after) es supply es' rest)
    (written : ∀ y ∈ Expr.namesOf es, ¬ supply.Ahead y)
    (settled : ∀ target ∈ Expr.targetsOf es, ¬ TakesName invocation target)
    (drawn : Drawn supply rest x) :
    ∃ front part behind, es' = front ++ part :: behind ∧ BoundOnce x part ∧
      x ∉ Expr.namesOf front ∧ x ∉ Expr.namesOf behind := by
  induction run with
  | nil => exact absurd drawn.1 drawn.2
  | @cons e supply e' middle es es' rest head tail ih =>
      obtain ⟨first, binds⟩ := head
      simp only [Expr.namesOf, List.forall_mem_append] at written
      rw [Expr.targetsOf_cons, List.forall_mem_append] at settled
      -- The name is drawn either in a later tree, and then not in this one, or the other way round.
      by_cases ahead : middle.Ahead x
      · obtain ⟨front, part, behind, rfl, bound, inFront, inBehind⟩ :=
          ih (fun y member reached => written.2 y member (first.later.ahead reached)) settled.2
            ⟨ahead, drawn.2⟩
        have inHead := first.not_mem_names (fun member => written.1 x member drawn.1)
          fun early => early.2 ahead
        refine ⟨e' :: front, part, behind, rfl, bound, ?_, inBehind⟩
        rw [Expr.namesOf, List.mem_append, not_or]
        exact ⟨inHead, inFront⟩
      · have inTail := tail.forget.not_mem_namesOf (fun member => written.2 x member drawn.1)
          fun late => ahead late.1
        have bound := binds written.1 settled.1 ⟨drawn.1, ahead⟩
        exact ⟨[], e', es', rfl, bound, by simp [Expr.namesOf], inTail⟩

theorem BindsDrawn.of_children {e expanded : Expr} {x : String}
    (run : InTurn (fun e before e' after => ∃ _ : Expands invocation e before e' after,
      BindsDrawn x invocation e before e' after) e.children supply expanded.children rest) :
    BindsDrawn x invocation e supply expanded rest := by
  intro written settled drawn
  have inner : e.children ≠ [] := by
    intro none
    rw [none] at run
    generalize expanded.children = parts at run
    cases run
    exact drawn.2 drawn.1
  rw [Expr.names_eq_children inner] at written
  rw [Expr.targets_eq_children, List.forall_mem_append] at settled
  obtain ⟨front, part, behind, parts, bound, inFront, inBehind⟩ :=
    run.boundOnce written settled.2 drawn
  exact bound.within parts inFront inBehind

theorem Introduces.boundOnce {lines lines' : List Expr} {x : String} (other : x ≠ invocation)
    (introduces : Introduces invocation x lines)
    (run : InTurn (Expands invocation) lines supply lines' rest) (old : ¬ supply.Ahead x) :
    BoundOnce x (.block lines') := by
  obtain ⟨before, value, after, rfl, inFront, inValue, clear⟩ := introduces
  obtain ⟨before', _, afterFront, runFront, runRest, rfl⟩ := run.split
  obtain ⟨_, afterLine, after', runLine, runBehind, rfl⟩ := InTurn.cons_iff.mp runRest
  obtain ⟨_, _, value', runTarget, runValue, rfl⟩ := Expands.assign_iff.mp runLine
  cases runTarget
  have oldFront : ¬ afterFront.Ahead x := fun reached =>
    old ((runFront.later fun _ _ _ _ run => run.later).ahead reached)
  have oldLine : ¬ afterLine.Ahead x := fun reached => oldFront (runValue.later.ahead reached)
  exact .of_lines (runFront.not_mem_namesOf inFront fun drawn => old drawn.1)
    (runValue.not_mem_names inValue fun drawn => oldFront drawn.1)
    (runBehind.not_mem_targetsOf_expands other oldLine clear)

theorem Expands.boundOnce {e expanded : Expr} {x : String}
    (run : Expands invocation e supply expanded rest) :
    BindsDrawn x invocation e supply expanded rest := by
  induction run using Expands.induction with
  | name | hole | raw => exact fun _ _ drawn => absurd drawn.1 drawn.2
  | call _ head _ first others => exact .of_children (.cons ⟨head, first⟩ others)
  | assign head tail first second =>
      exact .of_children (.cons ⟨head, first⟩ (.cons ⟨tail, second⟩ (.nil _)))
  | block _ others => exact .of_children others
  | marked _ inside ih => exact .of_children (.cons ⟨inside, ih⟩ (.nil _))
  | @pipeline args pipeline threaded expanded supply middle rest accepted inside ih =>
      intro written settled drawn
      simp only [Expr.names, List.singleton_append, List.forall_mem_cons] at written
      simp only [Expr.targets_call, Expr.targets_name, List.nil_append] at settled
      -- A name is drawn either by threading this pipeline or by expanding what it is threaded into.
      by_cases ahead : middle.Ahead x
      · refine ih (fun y member reached => ?_) ?_ ⟨ahead, drawn.2⟩
        · rcases threadArguments_names accepted y member with inside | threading
          · exact written.2 y inside ((threadArguments_later accepted).ahead reached)
          · exact threading.2 reached
        · exact threadArguments_forall_targets (fun target c _ => TakesName.not_fill c target)
            accepted settled fun y _ takes => by cases takes
      · have other : x ≠ invocation := fun same => written.1 (same ▸ drawn.1)
        obtain ⟨lines, block, introduces⟩ :=
          threadArguments_introduces accepted other written.2 settled ⟨drawn.1, ahead⟩
        rw [block] at inside
        obtain ⟨lines', run, rfl⟩ := Expands.block_iff.mp inside
        exact introduces.boundOnce other run ahead

namespace Config

/-- Every name of an expanded tree that is not written in the tree is the stem with a positive
number, and is bound once, if no target takes the name that fills its hole. -/
theorem expand_binds_fresh_names_once {config : Config} {e expanded : Expr}
    (done : (config.expand e).outcome = .ok expanded)
    (settled : ∀ target ∈ e.targets, ¬ TakesName config.invocation target) {x : String}
    (occurs : x ∈ expanded.names) (unwritten : x ∉ e.names) :
    (∃ counter : Nat, 0 < counter ∧ x = config.stem ++ toString counter) ∧
      BoundOnce x expanded := by
  obtain ⟨rest, run⟩ := outcome_expand.mp done
  have written : ∀ y ∈ e.names, ¬ (Supply.ofRoots config.stem [e]).Ahead y := fun y member =>
    Supply.not_ahead_of_mem (by simpa [Expr.namesOf] using member)
  rcases run.names occurs with inside | drawn
  · exact absurd inside unwritten
  · obtain ⟨counter, positive, named, _⟩ := drawn.1
    exact ⟨⟨counter, positive, named⟩, run.boundOnce written settled drawn⟩

/-- In `@chain(f(), y = g(_, @chain(_, h, k)), m)` the name `__chain_3` is bound inside the value of
`y`, by the inner pipeline. -/
theorem expand_binds_fresh_name_of_nested_pipeline :
    (expand {} (.call (.name "@chain") [.call (.name "f") [],
        .assign (.name "y") (.call (.name "g") [.hole,
          .call (.name "@chain") [.hole, .name "h", .name "k"]]), .name "m"])).outcome =
      .ok (.block [.assign (.name "__chain_1") (.call (.name "f") []),
        .assign (.name "y") (.call (.name "g") [.name "__chain_1",
          .block [.assign (.name "__chain_3") (.call (.name "h") [.name "__chain_1"]),
            .assign (.name "__chain_4") (.call (.name "k") [.name "__chain_3"]),
            .name "__chain_4"]]),
        .assign (.name "__chain_2") (.call (.name "m") [.name "y"]), .name "__chain_2"]) ∧
    BoundOnce "__chain_3" (.block [.assign (.name "__chain_1") (.call (.name "f") []),
      .assign (.name "y") (.call (.name "g") [.name "__chain_1",
        .block [.assign (.name "__chain_3") (.call (.name "h") [.name "__chain_1"]),
          .assign (.name "__chain_4") (.call (.name "k") [.name "__chain_3"]),
          .name "__chain_4"]]),
      .assign (.name "__chain_2") (.call (.name "m") [.name "y"]), .name "__chain_2"]) := by
  have done : (expand {} (.call (.name "@chain") [.call (.name "f") [],
        .assign (.name "y") (.call (.name "g") [.hole,
          .call (.name "@chain") [.hole, .name "h", .name "k"]]), .name "m"])).outcome =
      .ok (.block [.assign (.name "__chain_1") (.call (.name "f") []),
        .assign (.name "y") (.call (.name "g") [.name "__chain_1",
          .block [.assign (.name "__chain_3") (.call (.name "h") [.name "__chain_1"]),
            .assign (.name "__chain_4") (.call (.name "k") [.name "__chain_3"]),
            .name "__chain_4"]]),
        .assign (.name "__chain_2") (.call (.name "m") [.name "y"]), .name "__chain_2"]) := by cbv
  have settled : ∀ target ∈ (Expr.call (.name "@chain") [.call (.name "f") [],
        .assign (.name "y") (.call (.name "g") [.hole,
          .call (.name "@chain") [.hole, .name "h", .name "k"]]), .name "m"]).targets,
      ¬ TakesName "@chain" target := by
    simp only [Expr.targets_call, Expr.targets_assign, Expr.targets_name, Expr.targets_hole,
      Expr.targetsOf_cons, Expr.targetsOf_nil, List.nil_append, List.append_nil,
      List.forall_mem_singleton]
    intro takes
    cases takes
  exact ⟨done, (expand_binds_fresh_names_once done settled (by decide) (by decide)).2⟩

/-- No target of `@chain(f(), g(@chain(_) = y))` is a hole, but one is a pipeline that comes down to
the hole that is its seed, so the name bound to `f()` is assigned again. -/
theorem expand_assigns_fresh_name_twice :
    (∀ target ∈ (Expr.call (.name "@chain") [.call (.name "f") [], .call (.name "g")
        [.assign (.call (.name "@chain") [.hole]) (.name "y")]]).targets, target ≠ .hole) ∧
    (expand {} (.call (.name "@chain") [.call (.name "f") [], .call (.name "g")
        [.assign (.call (.name "@chain") [.hole]) (.name "y")]])).outcome =
      .ok (.block [.assign (.name "__chain_1") (.call (.name "f") []),
        .assign (.name "__chain_2") (.call (.name "g")
          [.assign (.name "__chain_1") (.name "y")]), .name "__chain_2"]) ∧
    "__chain_1" ∉ (Expr.call (.name "@chain") [.call (.name "f") [], .call (.name "g")
        [.assign (.call (.name "@chain") [.hole]) (.name "y")]]).names ∧
    (Expr.block [.assign (.name "__chain_1") (.call (.name "f") []),
      .assign (.name "__chain_2") (.call (.name "g")
        [.assign (.name "__chain_1") (.name "y")]), .name "__chain_2"]).targets.count
          (.name "__chain_1") = 2 := by
  refine ⟨by decide, by cbv, by decide, by decide⟩

end Config

end Pipelines
