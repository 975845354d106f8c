import Pipelines.Proofs.Meaning.Lines

namespace Pipelines

universe u

variable {V S : Type u} {invocation : String} {hidden : String → Prop}

section

open Supply (Later Drawn)

variable {supply middle rest : Supply} (given : Interpretation V S) (outer : V)

theorem Expands.name?_eq {target target' : Expr}
    (run : Expands invocation target supply target' rest)
    (settled : target.Settled invocation .outside) : target'.name? = target.name? := by
  apply Option.ext
  intro x
  rw [Expr.name?_eq_some, Expr.name?_eq_some, run.eq_name_iff]
  constructor
  · intro down
    exact settled x down
  · intro same
    subst same
    exact .name

/-- An expansion evaluates like the tree runs, whatever hides the names that are drawn for it. -/
def Preserves (invocation : String) (given : Interpretation V S) (outer : V) (e : Expr)
    (supply : Supply) (expanded : Expr) (rest : Supply) : Prop :=
  Steady invocation .outside e → ∀ hidden : String → Prop, (∀ y, Drawn supply rest y → hidden y) →
    (∀ y ∈ e.names, ¬ hidden y) →
    Simulates hidden none none (expanded.evaluate given outer) (e.run invocation given outer)

theorem InTurn.preserves {es es' : List Expr}
    (run : InTurn (fun e before e' after => ∃ _ : Expands invocation e before e' after,
      Preserves invocation given outer e before e' after) es supply es' rest)
    (steady : SteadyAll invocation .outside es) (secret : ∀ y, Drawn supply rest y → hidden y)
    (visible : ∀ y ∈ Expr.namesOf es, ¬ hidden y) :
    Simulates hidden none none (Expr.evaluateAll given outer es')
      (Expr.runAll invocation given outer es) := by
  induction run with
  | nil =>
      rw [Expr.evaluateAll, Expr.runAll]
      exact .pure _
  | cons head tail ih =>
      cases steady with
      | cons first _ others =>
          obtain ⟨inside, preserves⟩ := head
          have behind := tail.forget.later fun _ _ _ _ step => step.later
          have one := preserves first hidden (fun y drawn => secret y (drawn.extend behind))
            fun y member => visible y (List.mem_append_left _ member)
          have more := ih others (fun y drawn => secret y (drawn.before inside.later))
            fun y member => visible y (List.mem_append_right _ member)
          rw [Expr.evaluateAll, Expr.runAll]
          exact one.bind fun value => more.bind fun values => .pure _

theorem Expands.preserves {e expanded : Expr} (run : Expands invocation e supply expanded rest) :
    Preserves invocation given outer e supply expanded rest := by
  induction run using Expands.induction with
  | name x =>
      intro _ hidden _ visible
      rw [Expr.evaluate, Expr.run]
      exact .read (visible x (by simp [Expr.names]))
  | hole =>
      intro _ hidden _ _
      rw [Expr.evaluate, Expr.run]
      exact .pure _
  | raw payload =>
      intro _ hidden _ _
      rw [Expr.evaluate, Expr.run]
      exact .act _
  | call plain head tail first others =>
      intro steady hidden secret visible
      have behind := others.forget.later fun _ _ _ _ step => step.later
      cases steady with
      | pipeline => exact absurd rfl plain
      | call _ _ parts =>
          cases parts with
          | cons callee _ args =>
              have function := first callee hidden (fun y drawn => secret y (drawn.extend behind))
                fun y member => visible y (List.mem_append_left _ member)
              have values := others.preserves given outer args
                (fun y drawn => secret y (drawn.before head.later))
                fun y member => visible y (List.mem_append_right _ member)
              rw [Expr.evaluate, Expr.run_call given plain]
              exact function.bind fun f => values.bind fun vs => .act _
  | assign head _ _ second =>
      intro steady hidden secret visible
      cases steady with
      | assign settled bound =>
          have value := second bound hidden (fun y drawn => secret y (drawn.before head.later))
            fun y member => visible y (List.mem_append_right _ member)
          rw [Expr.evaluate, Expr.run, head.name?_eq settled]
          exact value.bind fun result => (Simulates.store result (by simp)).bind fun _ => .pure _
  | block _ others =>
      intro steady hidden secret visible
      cases steady with
      | block lines =>
          rw [Expr.evaluate, Expr.run]
          exact (others.preserves given outer lines secret visible).bind fun vs => .pure _
  | marked tag _ ih =>
      intro steady hidden secret visible
      cases steady with
      | marked _ inner =>
          rw [Expr.evaluate, Expr.run]
          exact (ih inner hidden secret visible).bind fun value => .act _
  | @pipeline args _ threaded _ _ middle _ accepted inside ih =>
      intro steady hidden secret visible
      have ahead := threadArguments_later accepted
      have invisible := fun y (drawn : Drawn _ middle y) => secret y (drawn.extend inside.later)
      obtain ⟨threadedSteady, runs⟩ := pipeline_preserves given outer accepted steady visible invisible
      -- The names that threading has drawn are read from here on, so they are hidden no longer.
      refine (ih threadedSteady (fun y => hidden y ∧ y ∉ threaded.toExpr.names)
        (fun y drawn => ?_) fun y member secret => secret.2 member).trans runs fun y secret => secret.1
      have still := secret y (drawn.before ahead)
      refine ⟨still, fun member => ?_⟩
      rcases threadArguments_names accepted y member with inArgs | threading
      · exact visible y (List.mem_cons_of_mem _ inArgs) still
      · exact threading.2 drawn.1

end

namespace Config

/-- The expansion of a steady tree has the value and the effects that the tree has when its
pipelines are run, and leaves the same values of all names but those that it has drawn. -/
theorem evaluate_expand {config : Config} {e expanded : Expr}
    (done : (config.expand e).outcome = .ok expanded)
    (steady : Steady config.invocation .outside e) :
    ∃ rest, (e.expand config.invocation (.ofRoots config.stem [e])).outcome =
        .ok (expanded, rest) ∧
      ∀ (given : Interpretation V S) (outer : V) (world : World V S),
        (expanded.evaluate given outer world).1 =
          (e.run config.invocation given outer world).1 ∧
        (expanded.evaluate given outer world).2.effects =
          (e.run config.invocation given outer world).2.effects ∧
        ∀ x, ¬ Supply.Drawn (.ofRoots config.stem [e]) rest x →
          (expanded.evaluate given outer world).2.env x =
            (e.run config.invocation given outer world).2.env x := by
  obtain ⟨rest, run⟩ := outcome_expand.mp done
  refine ⟨rest, Expands.outcome_iff.mp run, fun given outer world => ?_⟩
  have written : ∀ x ∈ e.names, ¬ Supply.Drawn (.ofRoots config.stem [e]) rest x := by
    intro x member drawn
    obtain ⟨⟨_, _, _, free⟩, _⟩ := drawn
    exact free (by simpa [Supply.ofRoots, Expr.namesOf] using member)
  obtain ⟨value, effects, env, _⟩ := run.preserves given outer steady _ (fun _ drawn => drawn)
    written world world (.refl _ world)
  exact ⟨value, effects, env⟩

/-- Numbers that application adds up and writes down. -/
def adding : Interpretation Nat (List Nat) where
  raw payload log := (payload.length, log)
  mark _ value log := (value, log)
  apply function values log :=
    (values.foldl (· + ·) function, log ++ [values.foldl (· + ·) function])
  empty := 0

/-- The world in which `g` is 10 and every other name is 1. -/
def ones : World Nat (List Nat) where
  env x := if x = "g" then 10 else 1
  effects := []

/-- The tree `@chain(f(x), y = g(_, _), @aside h, k(@chain(_, @. m, n)))`. -/
def nested : Expr :=
  .call (.name "@chain") [.call (.name "f") [.name "x"],
    .assign (.name "y") (.call (.name "g") [.hole, .hole]), .marked .aside (.name "h"),
    .call (.name "k") [.call (.name "@chain") [.hole, .marked .broadcast (.name "m"), .name "n"]]]

/-- What the nested pipelines are threaded into. -/
def nestedExpanded : Expr :=
  .block [.assign (.name "__chain_1") (.call (.name "f") [.name "x"]),
    .assign (.name "y") (.call (.name "g") [.name "__chain_1", .name "__chain_1"]),
    .call (.name "h") [.name "y"],
    .assign (.name "__chain_2") (.call (.name "k") [.block
      [.assign (.name "__chain_3") (.call (.marked .broadcast (.name "m")) [.name "y"]),
        .assign (.name "__chain_4") (.call (.name "n") [.name "__chain_3"]),
        .name "__chain_4"]]),
    .name "__chain_2"]

theorem steady_nested : Steady "@chain" .outside nested := by
  have name : ∀ current x, Receptive "@chain" current (.name x) := by
    intro current x
    refine .other ?_ ?_ ?_ (.name x)
    all_goals simp [Expr.assigned]
  have seed : Steady "@chain" .outside (.call (.name "f") [.name "x"]) := by
    refine .call (by decide) (by simp) (.of_forall ?_)
    simp only [List.forall_mem_cons]
    exact ⟨.name "f", .name "x", by simp⟩
  have twice : Steady "@chain" .unnamed (.call (.name "g") [.hole, .hole]) :=
    .call (by decide) (by simp) (.cons (.name "g") (by simp) (.cons .hole (by simp)
      (.cons .hole (by simp) .nil)))
  have inner : Steady "@chain" (.named "y")
      (.call (.name "@chain") [.hole, .marked .broadcast (.name "m"), .name "n"]) :=
    .pipeline (by decide) rfl .hole
      (.cons (by simp) (by simp [Expr.hasHole]) (fun _ => name _ "m")
        (.cons (by simp) (by simp [Expr.hasHole]) (fun _ => name _ "n") .nil))
  have outer : Steady "@chain" (.named "y") (.call (.name "k") [.call (.name "@chain")
      [.hole, .marked .broadcast (.name "m"), .name "n"]]) :=
    .call (by decide) (by simp) (.cons (.name "k") (by simp [Expr.assigned])
      (.cons inner (by simp [Expr.anyHasHole]) .nil))
  refine .pipeline (by simp) rfl seed (.cons (by simp) (fun _ => twice) ?_
    (.cons ?_ ?_ (fun _ => name _ "h") (.cons (by simp) (fun _ => outer) ?_ .nil)))
  all_goals simp [Expr.hasHole, Expr.anyHasHole, Expr.firstHasHole, Expr.assigned]

/-- The expansion of the nested pipelines has the value and the effects that they have. -/
theorem evaluate_expand_nested :
    ∃ rest, (nested.expand "@chain" (.ofRoots "__chain_" [nested])).outcome =
        .ok (nestedExpanded, rest) ∧
      (nestedExpanded.evaluate adding 0 ones).1 = (nested.run "@chain" adding 0 ones).1 ∧
      (nestedExpanded.evaluate adding 0 ones).2.effects =
        (nested.run "@chain" adding 0 ones).2.effects ∧
      ∀ x, ¬ Supply.Drawn (.ofRoots "__chain_" [nested]) rest x →
        (nestedExpanded.evaluate adding 0 ones).2.env x =
          (nested.run "@chain" adding 0 ones).2.env x := by
  have done : (expand {} nested).outcome = .ok nestedExpanded := by cbv
  obtain ⟨rest, run, same⟩ := evaluate_expand done steady_nested
  exact ⟨rest, run, same adding 0 ones⟩

/-- An expansion that does not have the value that the tree has when its pipelines are run. -/
def Departs (e expanded : Expr) : Prop :=
  (expand {} e).outcome = .ok expanded ∧
    (expanded.evaluate adding 0 ones).1 ≠ (e.run "@chain" adding 0 ones).1

theorem Departs.of_values {e expanded : Expr} {handedOn kept : Nat}
    (done : (expand {} e).outcome = .ok expanded)
    (named : (expanded.evaluate adding 0 ones).1 = handedOn)
    (run : (e.run "@chain" adding 0 ones).1 = kept) (different : handedOn ≠ kept) :
    Departs e expanded :=
  ⟨done, fun same => different (named.symm.trans (same.trans run))⟩

/-- A value is handed on under a name: a hole in the place of a callee can become the name that
introduces pipelines, a target can become a name, and a step or an aside that assigns the name
changes the value for what comes behind it. And the seed of a pipeline inside a step does not stand
in front. -/
theorem expand_departs_of_not_steady :
    Departs
      (.call (.name "@chain") [.name "@chain", .call .hole [.name "z"]])
      (.block [.assign (.name "__chain_1") (.name "z"), .name "__chain_1"]) ∧
    Departs
      (.call (.name "f") [.assign (.call (.name "@chain") [.name "x"]) (.name "g"), .name "x"])
      (.call (.name "f") [.assign (.name "x") (.name "g"), .name "x"]) ∧
    Departs
      (.call (.name "@chain")
        [.name "x", .call (.name "f") [.assign (.name "x") (.name "g"), .hole]])
      (.block [.assign (.name "__chain_1")
        (.call (.name "f") [.assign (.name "x") (.name "g"), .name "x"]), .name "__chain_1"]) ∧
    Departs
      (.call (.name "@chain")
        [.name "x", .call (.name "f") [.assign .hole (.name "g"), .hole]])
      (.block [.assign (.name "__chain_1")
        (.call (.name "f") [.assign (.name "x") (.name "g"), .name "x"]), .name "__chain_1"]) ∧
    Departs
      (.call (.name "@chain") [.name "x", .marked .aside (.assign .hole (.name "g"))])
      (.block [.assign (.name "x") (.name "g"), .name "x"]) ∧
    Departs
      (.call (.name "@chain")
        [.name "x", .marked .aside (.assign (.name "x") (.name "g")), .name "h"])
      (.block [.assign (.name "x") (.call (.name "g") [.name "x"]),
        .assign (.name "__chain_1") (.call (.name "h") [.name "x"]), .name "__chain_1"]) ∧
    Departs
      (.call (.name "@chain") [.name "y", .call (.name "g") [.call (.name "@chain")
        [.block [.name "x", .call (.name "f") [.hole]]]]])
      (.block [.assign (.name "__chain_1") (.call (.name "g") [.block
        [.assign (.name "__chain_2") (.call (.name "f") [.name "x", .name "y"]),
          .name "__chain_2"]]), .name "__chain_1"]) := by
  refine ⟨?callee, ?target, ?assigned, ?hole, ?asideHole, ?aside, ?seed⟩
  case callee =>
    refine .of_values (by cbv) (by decide : _ = 1) (?_ : _ = 2) (by decide)
    rw [Expr.run_accepted adding rfl]
    simp [runSteps, Step.run, Expr.run, Expr.runAll, StepKind.isBroadcast, Expr.hasHole, Expr.name?]
    rfl
  case target =>
    refine .of_values (by cbv) (by decide : _ = 21) (?_ : _ = 12) (by decide)
    simp [Expr.run, Expr.runAll, Expr.name?]
    rfl
  case assigned =>
    refine .of_values (by cbv) (by decide : _ = 21) (?_ : _ = 12) (by decide)
    rw [Expr.run_accepted adding rfl]
    simp [runSteps, Step.run, Expr.run, Expr.runAll, StepKind.isBroadcast, Expr.hasHole,
      Expr.anyHasHole, Expr.name?]
    rfl
  case hole =>
    refine .of_values (by cbv) (by decide : _ = 21) (?_ : _ = 12) (by decide)
    rw [Expr.run_accepted adding rfl]
    simp [runSteps, Step.run, Expr.run, Expr.runAll, StepKind.isBroadcast, Expr.hasHole,
      Expr.anyHasHole, Expr.name?]
    rfl
  case asideHole =>
    refine .of_values (by cbv) (by decide : _ = 10) (?_ : _ = 1) (by decide)
    rw [Expr.run_accepted adding rfl]
    simp [runSteps, Step.run, Expr.run, StepKind.isBroadcast, Expr.hasHole]
    rfl
  case aside =>
    refine .of_values (by cbv) (by decide : _ = 12) (?_ : _ = 2) (by decide)
    rw [Expr.run_accepted adding rfl]
    simp [runSteps, Step.run, Expr.run, Expr.applyTo, StepKind.isBroadcast, Expr.hasHole, Expr.name?]
    rfl
  case seed =>
    refine .of_values (by cbv) (by decide : _ = 13) (?_ : _ = 12) (by decide)
    have inner : ∀ current, (Expr.call (.name "@chain") [.block [.name "x",
        .call (.name "f") [.hole]]]).run "@chain" adding current = _ := Expr.run_accepted adding rfl
    rw [Expr.run_accepted adding rfl]
    simp [inner, runSteps, Step.run, Expr.run, Expr.runAll, StepKind.isBroadcast,
      Expr.hasHole, Expr.anyHasHole, Expr.firstHasHole, Expr.name?]
    rfl

end Config

end Pipelines
