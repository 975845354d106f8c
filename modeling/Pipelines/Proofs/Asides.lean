import Pipelines.Proofs.Fresh
import Pipelines.Proofs.Meaning.Frame
import Pipelines.Proofs.Targets
import Pipelines.Transform

namespace Pipelines

/-!
# Asides

The value of a pipeline is handed on under a name, and an aside is evaluated for
its effect alone. But it is any expression, so it can assign that name: the
author's name for the value, or whatever name fills its holes. Unless it does,
the name denotes behind the aside what it did before.
-/

open Supply (Later Drawn)

variable {invocation : String} {supply rest : Supply}

theorem forall_split_cons {α : Type} {P : List α → α → Prop} {first : α} {others : List α} :
    (∀ before a after, first :: others = before ++ a :: after → P before a) ↔
      P [] first ∧
        ∀ before a after, others = before ++ a :: after → P (first :: before) a := by
  constructor
  · intro all
    exact ⟨all [] first others rfl, fun before a after split =>
      all (first :: before) a after (by rw [split]; rfl)⟩
  · intro parts before a after split
    obtain ⟨head, tail⟩ := parts
    rcases List.cons_eq_append_iff.mp split with ⟨rfl, same⟩ | ⟨others', rfl, later⟩
    · cases same
      exact head
    · exact tail others' a after later

/-- The name of the current value behind some statements, given the name before them. -/
def nameBehind (current? : Option String) (statements : List Statement) : Option String :=
  statements.foldl (fun current? statement => statement.binding.name?.or current?) current?

/-- No discarded value assigns the name of the current value. -/
def KeepsCurrent (current? : Option String) (statements : List Statement) : Prop :=
  ∀ before statement after, statements = before ++ statement :: after →
    statement.binding = .discard →
    ∀ x, nameBehind current? before = some x → .name x ∉ statement.value.targets

/-- The author's name for the value of a pipeline that starts with an expression. -/
def Expr.authorsSeed? : Expr → Option String
  | .name x | .assign (.name x) _ => some x
  | _ => none

/-- The author's name for the current value behind a step, given the one before it. -/
def Expr.authors? (author? : Option String) : Expr → Option String
  | .marked .aside _ => author?
  | .assign (.name y) _ => some y
  | _ => none

/-- No aside among steps assigns the author's name for the current value, or a free hole. -/
def SparesCurrent (invocation : String) (author? : Option String) (steps : List Expr) : Prop :=
  ∀ before step after, steps = before ++ step :: after → ∀ inner, step = .marked .aside inner →
    .hole ∉ inner.freeTargets invocation ∧
      ∀ x, before.foldl Expr.authors? author? = some x → .name x ∉ inner.targets

theorem KeepsCurrent.nil (current? : Option String) : KeepsCurrent current? [] := by
  simp [KeepsCurrent]

theorem SparesCurrent.nil (author? : Option String) : SparesCurrent invocation author? [] := by
  simp [SparesCurrent]

theorem KeepsCurrent.cons_iff {current? : Option String} {statement : Statement}
    {statements : List Statement} :
    KeepsCurrent current? (statement :: statements) ↔
      (statement.binding = .discard →
        ∀ x, current? = some x → .name x ∉ statement.value.targets) ∧
      KeepsCurrent (statement.binding.name?.or current?) statements :=
  forall_split_cons

theorem SparesCurrent.cons_iff {author? : Option String} {step : Expr} {steps : List Expr} :
    SparesCurrent invocation author? (step :: steps) ↔
      (∀ inner, step = .marked .aside inner → .hole ∉ inner.freeTargets invocation ∧
        ∀ x, author? = some x → .name x ∉ inner.targets) ∧
      SparesCurrent invocation (step.authors? author?) steps :=
  forall_split_cons

theorem Step.authors?_ofExpr {index : Nat} {e : Expr} {step : Step} (author? : Option String)
    (read : Step.ofExpr index e = .ok step) :
    e.authors? author? = if step.kind = .aside then author? else step.binding := by
  unfold Step.ofExpr at read
  split at read
  · cases read
    rfl
  · obtain ⟨function, accepted, built⟩ := bind_eq_ok.mp read
    cases built
    rfl
  · obtain ⟨function, accepted, built⟩ := bind_eq_ok.mp read
    cases built
    rfl
  · cases read
    rfl
  · cases read
  · rename_i unmarked _ _ unassigned
    cases read
    cases e with
    | assign target value => exact absurd rfl (unassigned target value)
    | marked tag inner => cases tag <;> simp_all
    | _ => rfl

theorem Step.plain_of_not_aside {index : Nat} {e inner : Expr} {step : Step}
    (read : Step.ofExpr index e = .ok step) (bound : step.kind ≠ .aside) :
    e ≠ .marked .aside inner := by
  rintro rfl
  cases read
  exact bound rfl

/-- Threaded steps keep the current name exactly when the asides among them spare it. A synthesised
name is written in no step, so only a free hole can come to be assigned under it. -/
theorem keepsCurrent_threadSteps {index : Nat} {es : List Expr} {steps : List Step}
    {current : String} {author? : Option String} (read : Step.ofExprs index es = .ok steps)
    (written : ∀ x ∈ Expr.namesOf es, ¬ supply.Ahead x)
    (named : author? = some current ∨ author? = none ∧ current ∉ Expr.namesOf es) :
    KeepsCurrent (some current) (threadSteps invocation steps current supply).1 ↔
      SparesCurrent invocation author? es := by
  induction es generalizing index steps current author? supply with
  | nil =>
      cases read
      exact iff_of_true (.nil _) (.nil _)
  | cons e es ih =>
      obtain ⟨step, others, first, follow, rfl⟩ := Step.ofExprs_cons_eq_ok.mp read
      rcases threaded : step.thread invocation current supply with ⟨statement, name, after⟩
      obtain ⟨value, later, cases⟩ := Step.thread_cases threaded
      have behind : ∀ x ∈ Expr.namesOf es, ¬ after.Ahead x := fun x member ahead =>
        written x (List.mem_append_right _ member) (later.ahead ahead)
      simp only [threadSteps, threaded, KeepsCurrent.cons_iff, SparesCurrent.cons_iff,
        Step.authors?_ofExpr author? first]
      rcases cases with ⟨aside, discard, rfl⟩ | ⟨bound, author, user⟩ | ⟨bound, unbound, temp, drawn⟩
      · obtain rfl := Step.eq_of_aside first aside
        have tail := ih follow behind (named.imp_right fun unnamed =>
          ⟨unnamed.1, fun member => unnamed.2 (List.mem_append_right _ member)⟩)
        have assigned : .name name ∈ statement.value.targets ↔
            .name name ∈ step.expr.targets ∨ .hole ∈ step.expr.freeTargets invocation := by
          rw [value, Step.targets_value first, Expr.name_mem_targets_fill]
        rw [if_pos aside, discard]
        refine and_congr ?_ tail
        rcases named with rfl | ⟨rfl, absent⟩
        · simp [assigned, and_comm]
        · have unwritten : .name name ∉ step.expr.targets := Expr.not_name_mem_targets
            fun member => absent (List.mem_append_left _ member)
          simp [assigned, unwritten]
      · have tail : KeepsCurrent (some name) _ ↔ SparesCurrent invocation (some name) es :=
          ih follow behind (.inl rfl)
        simp [user, Binding.name?, bound, author, Step.plain_of_not_aside first bound, tail]
      · have fresh : name ∉ Expr.namesOf es := fun member =>
          written name (List.mem_append_right _ member) drawn.1
        have tail : KeepsCurrent (some name) _ ↔ SparesCurrent invocation none es :=
          ih follow behind (.inr ⟨rfl, fresh⟩)
        simp [temp, Binding.name?, bound, unbound, Step.plain_of_not_aside first bound, tail]

theorem KeepsCurrent.append_iff {current? : Option String} {start statements : List Statement}
    (kept : ∀ statement ∈ start, statement.binding ≠ .discard) :
    KeepsCurrent current? (start ++ statements) ↔
      KeepsCurrent (nameBehind current? start) statements := by
  induction start generalizing current? with
  | nil => rfl
  | cons statement start ih =>
      obtain ⟨first, others⟩ := List.forall_mem_cons.mp kept
      rw [List.cons_append, KeepsCurrent.cons_iff, ih others]
      simp [first, nameBehind]

/-- The author names the seed of a pipeline, or else its name is synthesised. -/
theorem nameSeed_named {seed : Expr} {start : List Statement} {current : String}
    (named : nameSeed seed supply = .ok (start, current, rest)) :
    (∀ statement ∈ start, statement.binding ≠ .discard) ∧
      nameBehind seed.name? start = some current ∧
      (seed.authorsSeed? = some current ∨
        seed.authorsSeed? = none ∧ Drawn supply rest current) := by
  rcases nameSeed_cases named with ⟨rfl, rfl, _⟩ | ⟨value, rfl, rfl, _⟩ | ⟨plain, unnamed, rfl, next⟩
  · exact ⟨by simp, rfl, .inl rfl⟩
  · exact ⟨by simp, rfl, .inl rfl⟩
  · refine ⟨by simp, rfl, .inr ⟨?_, Supply.drawn_of_eq_next next⟩⟩
    cases seed with
    | name x => cases unnamed
    | assign target value => cases Step.isAssignment_of_assign plain
    | _ => rfl

theorem keepsCurrent_thread {args es : List Expr} {pipeline : Pipeline} {threaded : Threaded}
    (split : Expr.flatten args = pipeline.seed :: es)
    (read : Step.ofExprs 1 es = .ok pipeline.steps)
    (done : thread invocation pipeline.seed pipeline.steps supply = .ok (threaded, rest))
    (written : ∀ x ∈ Expr.namesOf args, ¬ supply.Ahead x) :
    KeepsCurrent pipeline.seed.name? threaded.statements ↔
      SparesCurrent invocation pipeline.seed.authorsSeed? es := by
  by_cases none : pipeline.steps = []
  · rw [none] at read
    rw [none, thread_nil] at done
    cases done
    cases Step.ofExprs_eq_nil read
    exact iff_of_true (.nil _) (.nil _)
  · obtain ⟨start, current, middle, named, statements, _, _⟩ := (thread_eq_ok none).mp done
    obtain ⟨kept, behind, authors⟩ := nameSeed_named named
    have inSteps : ∀ x ∈ Expr.namesOf es, ¬ supply.Ahead x := by
      intro x member
      apply written
      rw [← Expr.namesOf_flatten, split]
      exact List.mem_append_right _ member
    rw [statements, KeepsCurrent.append_iff kept, behind]
    refine keepsCurrent_threadSteps read
      (fun x member ahead => inSteps x member ((nameSeed_later named).ahead ahead)) ?_
    exact authors.imp_right fun drawn =>
      ⟨drawn.1, fun member => inSteps current member drawn.2.1⟩

mutual

theorem Expr.name_mem_targets_of_assigned {x : String} (e : Expr) (member : x ∈ e.assigned) :
    .name x ∈ e.targets := by
  cases e with
  | assign target value =>
      rw [assigned, List.mem_append, Option.mem_toList, name?_eq_some] at member
      rcases member with rfl | inside
      · simp
      · simp [name_mem_targets_of_assigned value inside]
  | call callee args =>
      rcases List.mem_append.mp member with inCallee | inArgs
      · simp [name_mem_targets_of_assigned callee inCallee]
      · simp [name_mem_targetsOf_of_assigned args inArgs]
  | block lines => simpa using name_mem_targetsOf_of_assigned lines member
  | marked tag inner => simpa using name_mem_targets_of_assigned inner member
  | _ => cases member

theorem Expr.name_mem_targetsOf_of_assigned {x : String} (es : List Expr)
    (member : x ∈ Expr.assignedOf es) : .name x ∈ Expr.targetsOf es := by
  cases es with
  | nil => cases member
  | cons e es =>
      rcases List.mem_append.mp member with first | later
      · simp [name_mem_targets_of_assigned e first]
      · simp [name_mem_targetsOf_of_assigned es later]

end

universe u

variable {V S : Type u}

theorem Expr.run_keeps {e : Expr} {x : String} (unassigned : .name x ∉ e.targets)
    (given : Interpretation V S) (current : V) (world : World V S) :
    (e.run invocation given current world).2.env x = world.env x := by
  have respects : Respects (fun _ => False) (some (x, world.env x)) e.names e.assigned := by
    refine ⟨fun _ _ => not_false, fun y value held member => ?_⟩
    cases held
    exact unassigned (name_mem_targets_of_assigned e member)
  have kept : Alike (fun _ => False) (some (x, world.env x)) world world := by
    refine ⟨rfl, fun _ _ => rfl, fun y value held => ?_⟩
    cases held
    rfl
  obtain ⟨_, after⟩ := respects.run invocation given current world world kept
  exact after.kept x _ rfl

namespace Config

/-- No aside of a threaded pipeline assigns the current name exactly when none of its asides is
written to assign the author's name for the value, or a free hole. Then running an aside leaves the
current value as it was. -/
theorem asides_keep_current_iff {config : Config} {args : List Expr} {threaded : Threaded}
    (done : (config.threadInvocation args).outcome = .ok threaded) :
    ∃ seed steps, Expr.flatten args = seed :: steps ∧
      (KeepsCurrent seed.name? threaded.statements ↔
        SparesCurrent config.invocation seed.authorsSeed? steps) ∧
      (SparesCurrent config.invocation seed.authorsSeed? steps →
        ∀ before statement after, threaded.statements = before ++ statement :: after →
          statement.binding = .discard → ∀ x, nameBehind seed.name? before = some x →
          ∀ (given : Interpretation V S) (current : V) (world : World V S),
            (statement.value.run config.invocation given current world).2.env x = world.env x) := by
  obtain ⟨pipeline, rest, accepted⟩ := outcome_threadInvocation.mp done
  obtain ⟨read, threading⟩ := threadArguments_eq_ok.mp accepted
  obtain ⟨steps, split, follow⟩ := Pipeline.ofArguments_eq_ok.mp read
  have written : ∀ x ∈ Expr.namesOf args, ¬ (Supply.ofRoots config.stem args).Ahead x :=
    fun _ member => Supply.not_ahead_of_mem member
  have same := keepsCurrent_thread split follow threading written
  refine ⟨pipeline.seed, steps, split, same, ?_⟩
  intro spares before statement after found discarded x named given current world
  exact Expr.run_keeps (same.mpr spares before statement after found discarded x named) given
    current world

/-- In `@chain(begin y = load(x) end, @aside z = g(_), @. f, @aside y = _)` the first aside assigns
another name, and the second one `y` when the value has a name of its own. -/
theorem asides_keep_current_of_other_names :
    (threadInvocation {} [.block [.assign (.name "y") (.call (.name "load") [.name "x"])],
      .marked .aside (.assign (.name "z") (.call (.name "g") [.hole])),
      .marked .broadcast (.name "f"), .marked .aside (.assign (.name "y") .hole)]).outcome =
      .ok ⟨[⟨.user "y", .call (.name "load") [.name "x"]⟩,
        ⟨.discard, .assign (.name "z") (.call (.name "g") [.name "y"])⟩,
        ⟨.temp "__chain_1", .call (.marked .broadcast (.name "f")) [.name "y"]⟩,
        ⟨.discard, .assign (.name "y") (.name "__chain_1")⟩], .name "__chain_1"⟩ ∧
    KeepsCurrent none [⟨.user "y", .call (.name "load") [.name "x"]⟩,
      ⟨.discard, .assign (.name "z") (.call (.name "g") [.name "y"])⟩,
      ⟨.temp "__chain_1", .call (.marked .broadcast (.name "f")) [.name "y"]⟩,
      ⟨.discard, .assign (.name "y") (.name "__chain_1")⟩] := by
  have done : (threadInvocation {} [.block [.assign (.name "y") (.call (.name "load") [.name "x"])],
      .marked .aside (.assign (.name "z") (.call (.name "g") [.hole])),
      .marked .broadcast (.name "f"), .marked .aside (.assign (.name "y") .hole)]).outcome =
      .ok ⟨[⟨.user "y", .call (.name "load") [.name "x"]⟩,
        ⟨.discard, .assign (.name "z") (.call (.name "g") [.name "y"])⟩,
        ⟨.temp "__chain_1", .call (.marked .broadcast (.name "f")) [.name "y"]⟩,
        ⟨.discard, .assign (.name "y") (.name "__chain_1")⟩], .name "__chain_1"⟩ := by cbv
  obtain ⟨seed, steps, split, same, _⟩ := asides_keep_current_iff (V := Nat) (S := Nat) done
  change _ :: [_, _, _] = _ at split
  cases split
  refine ⟨done, same.mpr ?_⟩
  simp [SparesCurrent.cons_iff, SparesCurrent.nil, Expr.authors?, Expr.authorsSeed?,
    Expr.freeTargets, Expr.reachedTargets, Expr.reachedTargetsOf]

/-- The aside of `@chain(x, @aside x = g, h)` assigns the name of the seed, and that of
`@chain(f(), @aside _ = g, h)` the name that is synthesised for it. -/
theorem not_keepsCurrent_of_assigning_asides :
    (threadInvocation {} [.name "x", .marked .aside (.assign (.name "x") (.name "g")),
        .name "h"]).outcome =
      .ok ⟨[⟨.discard, .assign (.name "x") (.call (.name "g") [.name "x"])⟩,
        ⟨.temp "__chain_1", .call (.name "h") [.name "x"]⟩], .name "__chain_1"⟩ ∧
    ¬ KeepsCurrent (some "x") [⟨.discard, .assign (.name "x") (.call (.name "g") [.name "x"])⟩,
      ⟨.temp "__chain_1", .call (.name "h") [.name "x"]⟩] ∧
    (threadInvocation {} [.call (.name "f") [], .marked .aside (.assign .hole (.name "g")),
        .name "h"]).outcome =
      .ok ⟨[⟨.temp "__chain_1", .call (.name "f") []⟩,
        ⟨.discard, .assign (.name "__chain_1") (.name "g")⟩,
        ⟨.temp "__chain_2", .call (.name "h") [.name "__chain_1"]⟩], .name "__chain_2"⟩ ∧
    ¬ KeepsCurrent none [⟨.temp "__chain_1", .call (.name "f") []⟩,
      ⟨.discard, .assign (.name "__chain_1") (.name "g")⟩,
      ⟨.temp "__chain_2", .call (.name "h") [.name "__chain_1"]⟩] := by
  refine ⟨by cbv, ?_, by cbv, ?_⟩
  all_goals simp [KeepsCurrent.cons_iff, Binding.name?]

end Config

end Pipelines
