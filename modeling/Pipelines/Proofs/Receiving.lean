import Pipelines.Proofs.Asides
import Pipelines.Proofs.Overlooked

namespace Pipelines

variable {invocation : String} {supply middle rest : Supply}

namespace Expr

mutual

/-- The number of free holes of a tree. -/
def freeHoles (invocation : String) : Expr → Nat
  | .hole => 1
  | .call callee args =>
      if callee.name? = some invocation then freeHolesOfFirst invocation args
      else callee.freeHoles invocation + freeHolesOf invocation args
  | .assign target value => target.freeHoles invocation + value.freeHoles invocation
  | .block lines => freeHolesOf invocation lines
  | .marked _ inner => inner.freeHoles invocation
  | .name _ | .raw _ => 0

def freeHolesOfFirst (invocation : String) : List Expr → Nat
  | [] => 0
  | e :: _ => e.freeHoles invocation

def freeHolesOf (invocation : String) : List Expr → Nat
  | [] => 0
  | e :: es => e.freeHoles invocation + freeHolesOf invocation es

end

mutual

theorem freeHoles_pos_iff (e : Expr) :
    0 < e.freeHoles invocation ↔ e.hasHole invocation = true := by
  cases e with
  | call callee args =>
      rw [freeHoles, hasHole]
      split
      · exact freeHolesOfFirst_pos_iff args
      · rw [Nat.add_pos_iff_pos_or_pos, Bool.or_eq_true, freeHoles_pos_iff callee,
          freeHolesOf_pos_iff args]
  | assign target value =>
      rw [freeHoles, hasHole, Nat.add_pos_iff_pos_or_pos, Bool.or_eq_true,
        freeHoles_pos_iff target, freeHoles_pos_iff value]
  | block lines => exact freeHolesOf_pos_iff lines
  | marked tag inner => exact freeHoles_pos_iff inner
  | _ => simp [freeHoles, hasHole]

theorem freeHolesOfFirst_pos_iff (es : List Expr) :
    0 < freeHolesOfFirst invocation es ↔ firstHasHole invocation es = true := by
  cases es with
  | nil => simp [freeHolesOfFirst, firstHasHole]
  | cons e es => exact freeHoles_pos_iff e

theorem freeHolesOf_pos_iff (es : List Expr) :
    0 < freeHolesOf invocation es ↔ anyHasHole invocation es = true := by
  cases es with
  | nil => simp [freeHolesOf, anyHasHole]
  | cons e es =>
      rw [freeHolesOf, anyHasHole, Nat.add_pos_iff_pos_or_pos, Bool.or_eq_true,
        freeHoles_pos_iff e, freeHolesOf_pos_iff es]

end

mutual

theorem count_names_fill (invocation x : String) (e : Expr) :
    (e.fill invocation (.name x)).names.count x = e.names.count x + e.freeHoles invocation := by
  cases e with
  | call callee args =>
      rw [fill, freeHoles]
      split
      · simp only [names, List.count_append, count_namesOf_fillFirst invocation x args]
        omega
      · simp only [names, List.count_append, count_names_fill invocation x callee,
          count_namesOf_fillAll invocation x args]
        omega
  | assign target value =>
      simp only [fill, freeHoles, names, List.count_append, count_names_fill invocation x target,
        count_names_fill invocation x value]
      omega
  | block lines => exact count_namesOf_fillAll invocation x lines
  | marked tag inner => exact count_names_fill invocation x inner
  | hole => simp [fill, freeHoles, names]
  | _ => simp [fill, freeHoles]

theorem count_namesOf_fillFirst (invocation x : String) (es : List Expr) :
    (namesOf (fillFirst invocation es (.name x))).count x =
      (namesOf es).count x + freeHolesOfFirst invocation es := by
  cases es with
  | nil => rfl
  | cons e es =>
      simp only [fillFirst, freeHolesOfFirst, namesOf, List.count_append,
        count_names_fill invocation x e]
      omega

theorem count_namesOf_fillAll (invocation x : String) (es : List Expr) :
    (namesOf (fillAll invocation es (.name x))).count x =
      (namesOf es).count x + freeHolesOf invocation es := by
  cases es with
  | nil => rfl
  | cons e es =>
      simp only [fillAll, freeHolesOf, namesOf, List.count_append, count_names_fill invocation x e,
        count_namesOf_fillAll invocation x es]
      omega

end

theorem count_names_withFirstArgument (x : String) (e : Expr) :
    (e.withFirstArgument (.name x)).names.count x = e.names.count x + 1 := by
  cases e with
  | assign target value =>
      simp only [withFirstArgument, names, List.count_append,
        count_names_withFirstArgument x value]
      omega
  | call callee args =>
      simp only [withFirstArgument, names, namesOf, List.count_append, List.count_singleton_self]
      omega
  | _ => simp [withFirstArgument, names, namesOf, List.count_cons, Nat.add_comm]

theorem count_names_feed (invocation x : String) (e : Expr) :
    (e.feed invocation (.name x)).names.count x =
      e.names.count x + max 1 (e.freeHoles invocation) := by
  have holes : 0 < e.freeHoles invocation ↔ e.hasHole invocation = true := freeHoles_pos_iff e
  rw [feed]
  split
  · have positive := holes.mpr ‹_›
    rw [count_names_fill]
    omega
  · have none : ¬ 0 < e.freeHoles invocation := fun positive => ‹¬ _› (holes.mp positive)
    rw [count_names_withFirstArgument]
    omega

end Expr

/-- A function to broadcast is a bare name: it has no hole, and receives the value once. -/
theorem Step.count_names_value {index : Nat} {e : Expr} {step : Step}
    (read : Step.ofExpr index e = .ok step) (invocation current : String) :
    (step.value invocation current).names.count current =
      step.expr.names.count current + max 1 (step.expr.freeHoles invocation) := by
  rw [Step.value]
  by_cases broadcast : step.kind.isBroadcast = true
  · obtain ⟨f, named⟩ := Step.name_of_broadcast read broadcast
    rw [if_pos broadcast, named]
    simp [Expr.names, Expr.namesOf, Expr.freeHoles, List.count_cons, Nat.add_comm]
  · rw [if_neg broadcast]
    exact Expr.count_names_feed invocation current step.expr

/-- Where the shape of an expression sends the value of its statement. -/
def Binding.Suits (binding : Binding) : Expr → Prop
  | .marked .aside _ => binding = .discard
  | .assign (.name y) _ => binding = .user y
  | _ => ∃ x, binding = .temp x

/-- The author's name for the value of a step is written in its assignment. -/
theorem Binding.suits_of_bound {binding : Binding} {index : Nat} {e : Expr} {step : Step}
    (read : Step.ofExpr index e = .ok step) (bound : step.kind ≠ .aside)
    (named : ∀ y, step.binding = some y → binding = .user y)
    (unnamed : step.binding = none → ∃ x, binding = .temp x) : binding.Suits e := by
  unfold Step.ofExpr at read
  split at read
  · cases read
    exact absurd rfl bound
  · obtain ⟨function, accepted, built⟩ := bind_eq_ok.mp read
    cases built
    exact unnamed rfl
  · obtain ⟨function, accepted, built⟩ := bind_eq_ok.mp read
    cases built
    exact named _ rfl
  · cases read
    exact named _ rfl
  · cases read
  · rename_i unmarked _ _ _ unassigned
    cases read
    cases e with
    | assign target value => exact absurd rfl (unassigned target value)
    | marked tag inner =>
        cases tag with
        | aside => exact absurd rfl (unmarked inner)
        | broadcast => exact unnamed rfl
    | _ => exact unnamed rfl

theorem Step.suits_thread {index : Nat} {e : Expr} {step : Step} {current name : String}
    {statement : Statement} (read : Step.ofExpr index e = .ok step)
    (threaded : step.thread invocation current supply = (statement, name, rest)) :
    statement.binding.Suits e := by
  obtain ⟨_, _, ⟨aside, discard, _⟩ | ⟨bound, author, user⟩ | ⟨bound, unbound, temp, _⟩⟩ :=
    Step.thread_cases threaded
  · rw [Step.eq_of_aside read aside]
    exact discard
  · refine Binding.suits_of_bound read bound (fun y found => ?_) fun none => ?_
    · rw [author] at found
      cases found
      exact user
    · rw [author] at none
      cases none
  · refine Binding.suits_of_bound read bound (fun y found => ?_) fun _ => ⟨name, temp⟩
    rw [unbound] at found
    cases found

/-- The statement of an expression that is read as the step at a position and receives a name. -/
structure StatementOf (invocation : String) (index : Nat) (e : Expr) (current : String)
    (statement : Statement) : Prop where
  bound : statement.binding.Suits e
  closed : statement.value.hasHole invocation = false
  received : ∃ step, Step.ofExpr index e = .ok step ∧
    statement.value.names.count current =
      step.expr.names.count current + max 1 (step.expr.freeHoles invocation)

theorem Step.statementOf_thread {index : Nat} {e : Expr} {step : Step} {current name : String}
    {statement : Statement} (read : Step.ofExpr index e = .ok step)
    (threaded : step.thread invocation current supply = (statement, name, rest)) :
    StatementOf invocation index e current statement := by
  obtain ⟨value, _, _⟩ := Step.thread_cases threaded
  refine ⟨Step.suits_thread read threaded, ?_, step, read, ?_⟩
  · rw [value]
    exact Step.hasHole_value current read
  · rw [value]
    exact Step.count_names_value read invocation current

theorem Step.nameBehind_thread {step : Step} {current name : String} {statement : Statement}
    (threaded : step.thread invocation current supply = (statement, name, rest)) :
    statement.binding.name?.or (some current) = some name := by
  obtain ⟨_, _, ⟨_, discard, rfl⟩ | ⟨_, _, user⟩ | ⟨_, _, temp, _⟩⟩ := Step.thread_cases threaded
  · simp [discard, Binding.name?]
  · simp [user, Binding.name?]
  · simp [temp, Binding.name?]

/-- Every step has its statement, which receives the last name that was kept before it. -/
theorem statementOf_threadSteps {index : Nat} {es : List Expr} {steps : List Step}
    (current : String) (supply : Supply) (read : Step.ofExprs index es = .ok steps) {i : Nat}
    {e : Expr} (here : es[i]? = some e) :
    ∃ statement name,
      (threadSteps invocation steps current supply).1[i]? = some statement ∧
      nameBehind (some current) ((threadSteps invocation steps current supply).1.take i) =
        some name ∧
      StatementOf invocation (index + i) e name statement := by
  induction es generalizing index steps current supply i with
  | nil => cases here
  | cons first es ih =>
      obtain ⟨step, others, head, follow, rfl⟩ := Step.ofExprs_cons_eq_ok.mp read
      rcases threaded : step.thread invocation current supply with ⟨statement, name, after⟩
      simp only [threadSteps, threaded]
      cases i with
      | zero =>
          cases here
          exact ⟨statement, current, rfl, rfl, Step.statementOf_thread head threaded⟩
      | succ i =>
          obtain ⟨found, last, among, behind, law⟩ := ih name after follow here
          refine ⟨found, last, among, ?_, ?_⟩
          · rw [List.take_succ_cons, nameBehind, List.foldl_cons, Step.nameBehind_thread threaded]
            exact behind
          · rw [Nat.add_assoc, Nat.add_comm 1] at law
            exact law

theorem nameBehind_threadSteps (invocation : String) (steps : List Step) (current : String)
    (supply : Supply) :
    nameBehind (some current) (threadSteps invocation steps current supply).1 =
      some (threadSteps invocation steps current supply).2.1 := by
  induction steps generalizing current supply with
  | nil => rfl
  | cons step steps ih =>
      rcases threaded : step.thread invocation current supply with ⟨statement, name, after⟩
      simp only [threadSteps, threaded]
      rw [nameBehind, List.foldl_cons, Step.nameBehind_thread threaded]
      exact ih name after

/-- The synthesised name that a binding introduces. -/
def Binding.temp? : Binding → Option String
  | .temp x => some x
  | .user _ | .discard => none

/-- The synthesised names that statements introduce, in order. -/
def temps (statements : List Statement) : List String :=
  statements.filterMap (·.binding.temp?)

/-- The names that statements introduce are the next of a supply. -/
def Supply.Fills (supply : Supply) (statements : List Statement) (rest : Supply) : Prop :=
  supply.take (temps statements).length = (temps statements, rest)

theorem Supply.take_add (first second : Nat) (supply : Supply) :
    supply.take (first + second) =
      ((supply.take first).1 ++ ((supply.take first).2.take second).1,
        ((supply.take first).2.take second).2) := by
  induction first generalizing supply with
  | zero => simp [take]
  | succ first ih => simp [Nat.succ_add, take, ih]

theorem Supply.Fills.append {first second : List Statement} (begun : supply.Fills first middle)
    (ended : middle.Fills second rest) : supply.Fills (first ++ second) rest := by
  unfold Fills at *
  rw [temps, List.filterMap_append, ← temps, ← temps, List.length_append, take_add, begun, ended]

theorem Supply.fills_choose (supply : Supply) (binding : Option String) (value : Expr) :
    supply.Fills [⟨(supply.choose binding).1, value⟩] (supply.choose binding).2.2 := by
  cases binding with
  | none => rfl
  | some y => rfl

theorem Step.fills_thread (step : Step) (current : String) (supply : Supply) :
    supply.Fills [(step.thread invocation current supply).1]
      (step.thread invocation current supply).2.2 := by
  by_cases aside : step.kind = .aside
  · rw [Step.thread_aside aside]
    rfl
  · rw [Step.thread_bound aside]
    exact supply.fills_choose step.binding _

theorem fills_threadSteps (invocation : String) (steps : List Step) (current : String)
    (supply : Supply) :
    supply.Fills (threadSteps invocation steps current supply).1
      (threadSteps invocation steps current supply).2.2 := by
  induction steps generalizing current supply with
  | nil => rfl
  | cons step steps ih => exact (step.fills_thread current supply).append (ih _ _)

theorem fills_nameSeed {seed : Expr} {start : List Statement} {current : String}
    (named : nameSeed seed supply = .ok (start, current, rest)) : supply.Fills start rest := by
  rcases nameSeed_cases named with ⟨_, rfl, rfl⟩ | ⟨_, _, rfl, rfl⟩ | ⟨_, _, rfl, next⟩
  · rfl
  · rfl
  · obtain ⟨rfl, rfl⟩ := Prod.mk.inj next
    exact supply.fills_choose none seed

/-- The statements in front of the steps: none for a bare name, and otherwise one for the seed. -/
def NamesSeed (own : List Statement) : Expr → Prop
  | .name _ => own = []
  | .assign (.name y) value => own = [⟨.user y, value⟩]
  | seed => ∃ x, own = [⟨.temp x, seed⟩]

theorem namesSeed_of_nameSeed {seed : Expr} {start : List Statement} {current : String}
    (named : nameSeed seed supply = .ok (start, current, rest)) : NamesSeed start seed := by
  rcases nameSeed_cases named with ⟨rfl, rfl, _⟩ | ⟨value, rfl, rfl, _⟩ | ⟨plain, unnamed, rfl, _⟩
  · rfl
  · rfl
  · cases seed with
    | name x => cases unnamed
    | assign target value => cases Step.isAssignment_of_assign plain
    | _ => exact ⟨current, rfl⟩

theorem Step.length_ofExprs {index : Nat} {es : List Expr} {steps : List Step}
    (read : Step.ofExprs index es = .ok steps) : steps.length = es.length := by
  induction es generalizing index steps with
  | nil => cases read; rfl
  | cons e es ih =>
      obtain ⟨step, others, _, follow, rfl⟩ := Step.ofExprs_cons_eq_ok.mp read
      exact congrArg (· + 1) (ih follow)

/-- How the statements of a pipeline follow its seed and its steps. -/
structure FollowsSteps (config : Config) (args : List Expr) (seed : Expr) (steps : List Expr)
    (own others : List Statement) (final : Expr) : Prop where
  seeded : NamesSeed own seed
  counted : others.length = steps.length
  stepped : ∀ i e, steps[i]? = some e → ∃ statement current, others[i]? = some statement ∧
    nameBehind seed.name? (own ++ others.take i) = some current ∧
    StatementOf config.invocation (i + 1) e current statement
  drawn : temps (own ++ others) =
    (Supply.take (temps (own ++ others)).length (.ofRoots config.stem args)).1
  ended : ∃ last, nameBehind seed.name? (own ++ others) = some last ∧ final = .name last

namespace Config

/-- A pipeline with steps is threaded into a statement for a seed that is not a bare name and one
for every step, which receives the last name that was kept. -/
theorem threadInvocation_follows_steps {config : Config} {args steps : List Expr} {seed : Expr}
    {threaded : Threaded} (split : Expr.flatten args = seed :: steps) (some : steps ≠ [])
    (done : (config.threadInvocation args).outcome = .ok threaded) :
    ∃ own others, threaded.statements = own ++ others ∧
      FollowsSteps config args seed steps own others threaded.final := by
  obtain ⟨pipeline, rest, accepted⟩ := outcome_threadInvocation.mp done
  obtain ⟨read, threading⟩ := threadArguments_eq_ok.mp accepted
  obtain ⟨es, flattened, follow⟩ := Pipeline.ofArguments_eq_ok.mp read
  rw [split] at flattened
  obtain ⟨rfl, rfl⟩ := List.cons.inj flattened
  have stepped : pipeline.steps ≠ [] := fun none => some (Step.ofExprs_eq_nil (none ▸ follow))
  obtain ⟨own, current, middle, named, statements, final, rfl⟩ :=
    (thread_eq_ok stepped).mp threading
  obtain ⟨_, behind, _⟩ := nameSeed_named named
  have append : ∀ others, nameBehind pipeline.seed.name? (own ++ others) =
      nameBehind (Option.some current) others := by
    intro others
    rw [← behind, nameBehind, List.foldl_append]
    rfl
  refine ⟨own, _, statements, namesSeed_of_nameSeed named, ?counted, ?stepped, ?drawn, ?ended⟩
  case counted => exact (length_threadSteps ..).trans (Step.length_ofExprs follow)
  case stepped =>
    intro i e here
    obtain ⟨statement, name, among, behind, law⟩ :=
      statementOf_threadSteps current middle follow here
    exact ⟨statement, name, among, (append _).trans behind, Nat.add_comm 1 i ▸ law⟩
  case drawn =>
    have fills := (fills_nameSeed named).append
      (fills_threadSteps config.invocation pipeline.steps current middle)
    exact (congrArg Prod.fst fills).symm
  case ended => exact ⟨_, (append _).trans (nameBehind_threadSteps ..), final⟩

/-- In `@chain(f(), y = g(_, @chain(_, n(_))), begin @aside log; @. k end)` the seed is bound, `g`
and the seed of the inner pipeline receive its name, and the aside and `k` both receive `y`. -/
theorem threadInvocation_follows_steps_of_each_kind :
    Expr.flatten [.call (.name "f") [], .assign (.name "y") (.call (.name "g") [.hole,
        .call (.name "@chain") [.hole, .call (.name "n") [.hole]]]),
        .block [.marked .aside (.name "log"), .marked .broadcast (.name "k")]] =
      [.call (.name "f") [], .assign (.name "y") (.call (.name "g") [.hole,
        .call (.name "@chain") [.hole, .call (.name "n") [.hole]]]),
        .marked .aside (.name "log"), .marked .broadcast (.name "k")] ∧
    (threadInvocation {} [.call (.name "f") [], .assign (.name "y") (.call (.name "g") [.hole,
        .call (.name "@chain") [.hole, .call (.name "n") [.hole]]]),
        .block [.marked .aside (.name "log"), .marked .broadcast (.name "k")]]).outcome =
      .ok ⟨[⟨.temp "__chain_1", .call (.name "f") []⟩,
        ⟨.user "y", .call (.name "g") [.name "__chain_1",
          .call (.name "@chain") [.name "__chain_1", .call (.name "n") [.hole]]]⟩,
        ⟨.discard, .call (.name "log") [.name "y"]⟩,
        ⟨.temp "__chain_2", .call (.marked .broadcast (.name "k")) [.name "y"]⟩],
        .name "__chain_2"⟩ ∧
    ∃ own others, [⟨.temp "__chain_1", .call (.name "f") []⟩,
        ⟨.user "y", .call (.name "g") [.name "__chain_1",
          .call (.name "@chain") [.name "__chain_1", .call (.name "n") [.hole]]]⟩,
        ⟨.discard, .call (.name "log") [.name "y"]⟩,
        ⟨.temp "__chain_2", .call (.marked .broadcast (.name "k")) [.name "y"]⟩] = own ++ others ∧
      FollowsSteps {} [.call (.name "f") [], .assign (.name "y") (.call (.name "g") [.hole,
          .call (.name "@chain") [.hole, .call (.name "n") [.hole]]]),
          .block [.marked .aside (.name "log"), .marked .broadcast (.name "k")]]
        (.call (.name "f") []) [.assign (.name "y") (.call (.name "g") [.hole,
          .call (.name "@chain") [.hole, .call (.name "n") [.hole]]]),
          .marked .aside (.name "log"), .marked .broadcast (.name "k")]
        own others (.name "__chain_2") := by
  have split : Expr.flatten [.call (.name "f") [], .assign (.name "y") (.call (.name "g") [.hole,
        .call (.name "@chain") [.hole, .call (.name "n") [.hole]]]),
        .block [.marked .aside (.name "log"), .marked .broadcast (.name "k")]] =
      [.call (.name "f") [], .assign (.name "y") (.call (.name "g") [.hole,
        .call (.name "@chain") [.hole, .call (.name "n") [.hole]]]),
        .marked .aside (.name "log"), .marked .broadcast (.name "k")] := rfl
  have done : (threadInvocation {} [.call (.name "f") [],
        .assign (.name "y") (.call (.name "g") [.hole,
          .call (.name "@chain") [.hole, .call (.name "n") [.hole]]]),
        .block [.marked .aside (.name "log"), .marked .broadcast (.name "k")]]).outcome =
      .ok ⟨[⟨.temp "__chain_1", .call (.name "f") []⟩,
        ⟨.user "y", .call (.name "g") [.name "__chain_1",
          .call (.name "@chain") [.name "__chain_1", .call (.name "n") [.hole]]]⟩,
        ⟨.discard, .call (.name "log") [.name "y"]⟩,
        ⟨.temp "__chain_2", .call (.marked .broadcast (.name "k")) [.name "y"]⟩],
        .name "__chain_2"⟩ := by cbv
  exact ⟨split, done, threadInvocation_follows_steps split (by simp) done⟩

end Config

end Pipelines
