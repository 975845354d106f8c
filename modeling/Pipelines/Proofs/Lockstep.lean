import Mathlib.Data.Set.Function
import Pipelines.Proofs.Fresh
import Pipelines.Proofs.Hygiene
import Pipelines.Proofs.Renaming
import Pipelines.Proofs.Termination
import Pipelines.Transform

namespace Pipelines

/-!
# Runs in lockstep

Two supplies may draw different names, but both draw one at the same moments. If
a renaming takes each name of the one to the name that the other draws in its
place, then it takes what is threaded and expanded with the one to what is
threaded and expanded with the other. No pass looks into the names that it draws,
as long as none of them is the name of pipelines.
-/

variable {invocation : String} {new : String → String} {supply other : Supply}

namespace Supply

/-- The name that a supply draws after a number of others. -/
def nth : Supply → Nat → String
  | supply, 0 => supply.next.1
  | supply, count + 1 => supply.next.2.nth count

theorem nth_ahead (supply : Supply) (count : Nat) : supply.Ahead (supply.nth count) := by
  induction count generalizing supply with
  | zero => exact supply.next_drawn.1
  | succ count ih => exact supply.next_later.ahead (ih supply.next.2)

theorem next_ne_nth (supply : Supply) (count : Nat) : supply.next.1 ≠ supply.next.2.nth count := by
  intro same
  have again := supply.next.2.nth_ahead count
  rw [← same] at again
  exact supply.next_drawn.2 again

theorem nth_injective (supply : Supply) : Function.Injective supply.nth := by
  intro one two same
  induction one generalizing supply two with
  | zero =>
      cases two with
      | zero => rfl
      | succ two => exact absurd same (supply.next_ne_nth two)
  | succ one ih =>
      cases two with
      | zero => exact absurd same.symm (supply.next_ne_nth one)
      | succ two => exact congrArg (· + 1) (ih supply.next.2 same)

theorem nameAt_eq_nth (supply : Supply) {counter : Nat} (beyond : supply.used < counter)
    (free : nameAt supply.stem counter ∉ supply.taken) :
    ∃ count, nameAt supply.stem counter = supply.nth count := by
  by_cases later : supply.next.2.used < counter
  · obtain ⟨count, found⟩ := nameAt_eq_nth supply.next.2 later free
    exact ⟨count + 1, found⟩
  · refine ⟨0, Drawn.eq_next ⟨⟨counter, beyond, rfl, free⟩, ?_⟩⟩
    rintro ⟨again, further, same, _⟩
    exact later (nameAt_inj.mp same ▸ further)
termination_by counter - supply.used
decreasing_by
  have advanced := (firstFree_spec supply.stem (supply.used + 1) supply.taken).1
  simp only [next] at later ⊢
  omega

theorem Ahead.eq_nth {x : String} (ahead : supply.Ahead x) : ∃ count, x = supply.nth count := by
  obtain ⟨counter, beyond, rfl, free⟩ := ahead
  exact nameAt_eq_nth supply beyond free

/-- A renaming takes every name that one supply draws to the one that another draws in its place. -/
def Corresponds (new : String → String) (supply other : Supply) : Prop :=
  ∀ count, new (supply.nth count) = other.nth count

theorem Corresponds.next (corresponds : Corresponds new supply other) :
    other.next.1 = new supply.next.1 ∧ Corresponds new supply.next.2 other.next.2 :=
  ⟨(corresponds 0).symm, fun count => corresponds (count + 1)⟩

theorem Corresponds.choose (corresponds : Corresponds new supply other) (binding : Option String) :
    (other.choose (binding.map new)).1 = (supply.choose binding).1.rename new ∧
      (other.choose (binding.map new)).2.1 = new (supply.choose binding).2.1 ∧
      Corresponds new (supply.choose binding).2.2 (other.choose (binding.map new)).2.2 := by
  cases binding with
  | none =>
      obtain ⟨same, rest⟩ := corresponds.next
      exact ⟨congrArg Binding.temp same, same, rest⟩
  | some y => exact ⟨rfl, rfl, corresponds⟩

/-- The renaming of every name that one supply draws to the one that another draws in its place. It
leaves all other names as they are. -/
noncomputable def toward (supply other : Supply) : String → String :=
  Function.extend supply.nth other.nth id

theorem toward_corresponds (supply other : Supply) :
    Corresponds (supply.toward other) supply other :=
  fun count => supply.nth_injective.extend_apply other.nth id count

theorem toward_eq_self {x : String} (kept : ¬ supply.Ahead x) : supply.toward other x = x := by
  refine Function.extend_apply' other.nth id x ?_
  rintro ⟨count, rfl⟩
  exact kept (supply.nth_ahead count)

theorem toward_eq_iff {x : String} (kept : ¬ supply.Ahead x) (unused : ¬ other.Ahead x)
    (y : String) : supply.toward other y = x ↔ y = x := by
  by_cases drawn : ∃ count, supply.nth count = y
  · obtain ⟨count, rfl⟩ := drawn
    rw [toward_corresponds]
    constructor
    · rintro rfl
      exact absurd (other.nth_ahead count) unused
    · rintro rfl
      exact absurd (supply.nth_ahead count) kept
  · rw [toward, Function.extend_apply' other.nth id y drawn, id]

theorem toward_injOn {kept : List String} (old : ∀ x ∈ kept, ¬ supply.Ahead x)
    (unused : ∀ x ∈ kept, ¬ other.Ahead x) :
    Set.InjOn (supply.toward other) {x | x ∈ kept ∨ supply.Ahead x} := by
  rintro x (xKept | xAhead) y (yKept | yAhead) same
  · rwa [toward_eq_self (old x xKept), toward_eq_self (old y yKept)] at same
  · rw [toward_eq_self (old x xKept)] at same
    exact ((toward_eq_iff (old x xKept) (unused x xKept) y).mp same.symm).symm
  · rw [toward_eq_self (old y yKept)] at same
    exact (toward_eq_iff (old y yKept) (unused y yKept) x).mp same
  · obtain ⟨one, rfl⟩ := xAhead.eq_nth
    obtain ⟨two, rfl⟩ := yAhead.eq_nth
    rw [toward_corresponds, toward_corresponds] at same
    rw [other.nth_injective same]

end Supply

open Supply (Corresponds)

theorem Step.rename_value {step : Step} (current : String)
    (apart : KeepsApart new invocation step.expr.names) :
    (step.value invocation current).rename new =
      (step.rename new).value invocation (new current) := by
  have kind : (step.rename new).kind = step.kind := rfl
  rw [Step.value, Step.value, kind]
  split
  · rfl
  · exact Expr.rename_feed (.name current) apart

theorem Step.thread_rename {step : Step} (current : String)
    (apart : KeepsApart new invocation step.expr.names)
    (corresponds : Corresponds new supply other) :
    ((step.rename new).thread invocation (new current) other).1 =
        (step.thread invocation current supply).1.rename new ∧
      ((step.rename new).thread invocation (new current) other).2.1 =
        new (step.thread invocation current supply).2.1 ∧
      Corresponds new (step.thread invocation current supply).2.2
        ((step.rename new).thread invocation (new current) other).2.2 := by
  have value := Step.rename_value current apart
  by_cases aside : step.kind = .aside
  · have aside' : (step.rename new).kind = .aside := aside
    rw [Step.thread_aside aside, Step.thread_aside aside', ← value]
    exact ⟨rfl, rfl, corresponds⟩
  · obtain ⟨binding, name, rest⟩ := corresponds.choose step.binding
    have bound : (step.rename new).kind ≠ .aside := aside
    rw [Step.thread_bound aside, Step.thread_bound bound, ← value]
    exact ⟨congrArg (Statement.mk · _) binding, name, rest⟩

theorem threadSteps_rename {steps : List Step} (current : String)
    (apart : ∀ step ∈ steps, KeepsApart new invocation step.expr.names)
    (corresponds : Corresponds new supply other) :
    (threadSteps invocation (steps.map (Step.rename new)) (new current) other).1 =
        (threadSteps invocation steps current supply).1.map (Statement.rename new) ∧
      (threadSteps invocation (steps.map (Step.rename new)) (new current) other).2.1 =
        new (threadSteps invocation steps current supply).2.1 ∧
      Corresponds new (threadSteps invocation steps current supply).2.2
        (threadSteps invocation (steps.map (Step.rename new)) (new current) other).2.2 := by
  induction steps generalizing current supply other with
  | nil => exact ⟨rfl, rfl, corresponds⟩
  | cons step steps ih =>
      obtain ⟨first, others⟩ := List.forall_mem_cons.mp apart
      obtain ⟨statement, name, rest⟩ := Step.thread_rename current first corresponds
      obtain ⟨statements, last, final⟩ := ih _ others rest
      simp only [List.map_cons, threadSteps]
      rw [statement, name]
      exact ⟨congrArg _ statements, last, final⟩

theorem nameSeed_rename (seed : Expr) (corresponds : Corresponds new supply other) :
    SameOutcome (fun named named' => named'.1 = named.1.map (Statement.rename new) ∧
        named'.2.1 = new named.2.1 ∧ Corresponds new named.2.2 named'.2.2)
      (nameSeed seed supply) (nameSeed (seed.rename new) other) := by
  refine (Step.ofExpr_rename 0 seed).bind ?_
  rintro ⟨index, kind, binding, e⟩ _ _ rfl
  obtain ⟨chosen, name, rest⟩ := corresponds.choose binding
  have bound : [Statement.mk (other.choose (binding.map new)).1 (e.rename new)] =
      [Statement.mk (supply.choose binding).1 e].map (Statement.rename new) := by
    rw [chosen]
    rfl
  cases kind with
  | plain =>
      cases e with
      | name x => exact .ok ⟨rfl, rfl, corresponds⟩
      | _ => exact .ok ⟨bound, name, rest⟩
  | assignPlain => exact .ok ⟨bound, name, rest⟩
  | _ => exact .error rfl rfl

theorem thread_rename {steps : List Step} (seed : Expr)
    (apart : ∀ step ∈ steps, KeepsApart new invocation step.expr.names)
    (corresponds : Corresponds new supply other) :
    SameOutcome (fun threaded threaded' => threaded'.1 = threaded.1.rename new ∧
        Corresponds new threaded.2 threaded'.2)
      (thread invocation seed steps supply)
      (thread invocation (seed.rename new) (steps.map (Step.rename new)) other) := by
  cases steps with
  | nil => exact .ok ⟨rfl, corresponds⟩
  | cons step steps =>
      refine (nameSeed_rename seed corresponds).bind ?_
      rintro ⟨start, current, middle⟩ ⟨_, _, middle'⟩ _ ⟨rfl, rfl, rest⟩
      obtain ⟨statements, last, final⟩ := threadSteps_rename current apart rest
      have whole : Threaded.mk (start.map (Statement.rename new) ++
          (threadSteps invocation ((step :: steps).map (Step.rename new)) (new current) middle').1)
          (.name (threadSteps invocation ((step :: steps).map (Step.rename new)) (new current)
            middle').2.1) =
          (Threaded.mk (start ++ (threadSteps invocation (step :: steps) current middle).1)
            (.name (threadSteps invocation (step :: steps) current middle).2.1)).rename new := by
        rw [statements, last, ← List.map_append]
        rfl
      exact .ok ⟨whole, final⟩

theorem threadArguments_rename {args : List Expr}
    (apart : KeepsApart new invocation (Expr.namesOf args))
    (corresponds : Corresponds new supply other) :
    SameOutcome (fun threaded threaded' => threaded'.2.1 = threaded.2.1.rename new ∧
        Corresponds new threaded.2.2 threaded'.2.2)
      (threadArguments invocation args supply)
      (threadArguments invocation (Expr.renameAll new args) other) := by
  refine (Pipeline.ofArguments_rename args).bind ?_
  rintro pipeline _ read rfl
  have inSteps : ∀ step ∈ pipeline.steps, KeepsApart new invocation step.expr.names :=
    fun step member => apart.subset ((Pipeline.names_ofArguments read).2 step member).1
  refine (thread_rename pipeline.seed inSteps corresponds).bind ?_
  rintro ⟨threaded, rest⟩ ⟨_, rest'⟩ _ ⟨rfl, final⟩
  exact .ok ⟨rfl, final⟩

/-- A pipeline expands to what the expression that it is threaded into expands to. -/
theorem Expr.outcome_pipeline (invocation : String) (args : List Expr) (supply : Supply) :
    ((Expr.call (.name invocation) args).expand invocation supply).outcome =
      threadArguments invocation args supply >>= fun (_, threaded, rest) =>
        (threaded.toExpr.expand invocation rest).outcome := by
  cases accepted : threadArguments invocation args supply with
  | error cause =>
      rw [expand_refused accepted]
      rfl
  | ok parts =>
      rw [expand_threaded accepted, Traced.outcome_bind]
      rfl

/-- Expansions of a tree that are the same under other names, and leave supplies that correspond. -/
abbrev RenamedRun (new : String → String) (expanded expanded' : Expr × Supply) : Prop :=
  expanded'.1 = expanded.1.rename new ∧ Corresponds new expanded.2 expanded'.2

theorem Expr.expandAll_rename {es : List Expr}
    (each : ∀ e ∈ es, ∀ {supply other : Supply}, Corresponds new supply other →
      SameOutcome (RenamedRun new) (e.expand invocation supply).outcome
        ((e.rename new).expand invocation other).outcome)
    (corresponds : Corresponds new supply other) :
    SameOutcome (fun expanded expanded' => expanded'.1 = renameAll new expanded.1 ∧
        Corresponds new expanded.2 expanded'.2)
      (expandAll invocation es supply).outcome
      (expandAll invocation (renameAll new es) other).outcome := by
  induction es generalizing supply other with
  | nil =>
      rw [renameAll, expandAll, expandAll]
      exact .ok ⟨rfl, corresponds⟩
  | cons e es ih =>
      obtain ⟨first, others⟩ := List.forall_mem_cons.mp each
      rw [renameAll, expandAll, expandAll, Traced.outcome_bind, Traced.outcome_bind]
      refine (first corresponds).bind ?_
      rintro ⟨e', middle⟩ ⟨_, middle'⟩ _ ⟨rfl, rest⟩
      rw [Traced.outcome_bind, Traced.outcome_bind]
      refine (ih others rest).bind ?_
      rintro ⟨es', middle⟩ ⟨_, middle'⟩ _ ⟨rfl, final⟩
      exact .ok ⟨rfl, final⟩

/-- A tree under other names, with a supply of names that correspond, expands to the same tree under
other names, or fails for the same reason. -/
theorem Expr.expand_rename (apart : ∀ x, new x = invocation ↔ x = invocation) (e : Expr)
    (corresponds : Corresponds new supply other) :
    SameOutcome (RenamedRun new) (e.expand invocation supply).outcome
      ((e.rename new).expand invocation other).outcome := by
  have keeps : ∀ names, KeepsApart new invocation names := fun _ x _ => apart x
  induction e using (Recurses.wellFounded invocation).induction generalizing supply other with
  | _ e ih =>
      cases e with
      | call callee args =>
          by_cases pipeline : callee.name? = some invocation
          · cases name?_eq_some.mp pipeline
            have threading := threadArguments_rename (keeps (namesOf args)) corresponds
            have kept : new invocation = invocation := (apart invocation).mpr rfl
            rw [rename, rename, kept, outcome_pipeline, outcome_pipeline]
            refine threading.bind ?_
            rintro ⟨pipeline, threaded, middle⟩ ⟨_, _, middle'⟩ accepted ⟨rfl, rest⟩
            have inside := ih _ (.threaded accepted) rest
            rwa [← Threaded.toExpr_rename] at inside
          · have plain : (Expr.call callee args).isInvocation invocation = false :=
              isInvocation_call_eq_false.mpr pipeline
            have plain' : (callee.rename new).name? ≠ some invocation :=
              fun again => pipeline ((name?_rename_eq_invocation (keeps _)).mp again)
            rw [rename, expand_call pipeline, expand_call plain', Traced.outcome_bind,
              Traced.outcome_bind]
            refine (ih callee (.part plain List.mem_cons_self) corresponds).bind ?_
            rintro ⟨callee', middle⟩ ⟨_, middle'⟩ _ ⟨rfl, rest⟩
            rw [Traced.outcome_bind, Traced.outcome_bind]
            refine (expandAll_rename (fun arg member =>
              ih arg (.part plain (List.mem_cons_of_mem _ member))) rest).bind ?_
            rintro ⟨args', middle⟩ ⟨_, middle'⟩ _ ⟨rfl, final⟩
            exact .ok ⟨rfl, final⟩
      | assign target value =>
          rw [rename, expand, expand, Traced.outcome_bind, Traced.outcome_bind]
          refine (ih target (.part rfl List.mem_cons_self) corresponds).bind ?_
          rintro ⟨target', middle⟩ ⟨_, middle'⟩ _ ⟨rfl, rest⟩
          rw [Traced.outcome_bind, Traced.outcome_bind]
          refine (ih value (.part rfl (by simp [children])) rest).bind ?_
          rintro ⟨value', middle⟩ ⟨_, middle'⟩ _ ⟨rfl, final⟩
          exact .ok ⟨rfl, final⟩
      | block lines =>
          rw [rename, expand, expand, Traced.outcome_bind, Traced.outcome_bind]
          refine (expandAll_rename (fun line member => ih line (.part rfl member))
            corresponds).bind ?_
          rintro ⟨lines', middle⟩ ⟨_, middle'⟩ _ ⟨rfl, final⟩
          exact .ok ⟨rfl, final⟩
      | marked tag inner =>
          rw [rename, expand, expand, Traced.outcome_bind, Traced.outcome_bind]
          refine (ih inner (.part rfl List.mem_cons_self) corresponds).bind ?_
          rintro ⟨inner', middle⟩ ⟨_, middle'⟩ _ ⟨rfl, final⟩
          exact .ok ⟨rfl, final⟩
      | name | hole | raw =>
          rw [rename, expand, expand]
          exact .ok ⟨rfl, corresponds⟩

theorem Expr.size_lt_of_mem_children {e part : Expr} (inner : part ∈ e.children) :
    part.size < e.size := by
  have bounded := size_le_totalSize inner
  rw [e.size_eq_children]
  omega

theorem Expr.names_subset_of_mem_nodes {e node : Expr} (among : node ∈ e.nodes) :
    node.names ⊆ e.names := by
  rw [nodes_eq_children] at among
  rcases List.mem_cons.mp among with rfl | below
  · exact List.Subset.refl _
  · obtain ⟨part, inner, within⟩ := mem_nodesOf.mp below
    have smaller := size_lt_of_mem_children inner
    refine List.Subset.trans (names_subset_of_mem_nodes within) ?_
    rw [names_eq_children (List.ne_nil_of_mem inner), namesOf_eq_flatMap]
    exact fun x inside => List.mem_flatMap.mpr ⟨part, inner, inside⟩
termination_by e.size

theorem Expr.mem_names_of_isInvocation {e : Expr} (pipeline : e.isInvocation invocation = true) :
    invocation ∈ e.names := by
  obtain ⟨args, rfl⟩ := isInvocation_iff.mp pipeline
  simp [names]

theorem Expr.no_invocation {e : Expr} (unwritten : invocation ∉ e.names) :
    ∀ node ∈ e.nodes, node.isInvocation invocation = false := by
  intro node among
  refine Bool.eq_false_iff.mpr fun pipeline => unwritten ?_
  exact names_subset_of_mem_nodes among (mem_names_of_isInvocation pipeline)

theorem Expr.rename_toward_ofRoots (stem : String) (e : Expr) (other : Supply) :
    e.rename ((Supply.ofRoots stem [e]).toward other) = e :=
  rename_eq_self fun _ member => Supply.toward_eq_self (Supply.not_ahead_of_mem_names member)

namespace Config

theorem outcome_expand_eq_bind (config : Config) (e : Expr) :
    (config.expand e).outcome =
      (e.expand config.invocation (.ofRoots config.stem [e])).outcome >>= fun (expanded, _) =>
        .ok expanded := by
  rw [expand, Traced.outcome_bind]
  rfl

theorem expand_under_stems (invocation p q : String) (e : Expr) :
    SameOutcome
      (fun one other => one.rename ((Supply.ofRoots p [e]).toward (.ofRoots q [e])) = other)
      (Config.expand ⟨invocation, p⟩ e).outcome (Config.expand ⟨invocation, q⟩ e).outcome := by
  have same := Expr.rename_toward_ofRoots p e (.ofRoots q [e])
  by_cases written : invocation ∈ e.names
  · have reserved : ∀ stem, ¬ (Supply.ofRoots stem [e]).Ahead invocation := fun _ =>
      Supply.not_ahead_of_mem_names written
    have run := e.expand_rename (Supply.toward_eq_iff (reserved p) (reserved q))
      (Supply.toward_corresponds _ _)
    rw [same] at run
    rw [outcome_expand_eq_bind, outcome_expand_eq_bind]
    refine run.bind ?_
    rintro ⟨expanded, _⟩ ⟨_, _⟩ _ ⟨rfl, _⟩
    exact .ok rfl
  -- A supply might draw the name of pipelines here, but there is no pipeline to be threaded.
  · have kept : ∀ stem, (Config.expand ⟨invocation, stem⟩ e).outcome = .ok e := fun _ =>
      outcome_expand.mpr ⟨_, .refl _ (Expr.no_invocation written)⟩
    rw [kept p, kept q]
    exact .ok same

theorem threadInvocation_under_stems (invocation p q : String) (args : List Expr) :
    SameOutcome
      (fun one other => one.rename ((Supply.ofRoots p args).toward (.ofRoots q args)) = other)
      (Config.threadInvocation ⟨invocation, p⟩ args).outcome
      (Config.threadInvocation ⟨invocation, q⟩ args).outcome := by
  have kept : ∀ x ∈ Expr.namesOf args, (Supply.ofRoots p args).toward (.ofRoots q args) x = x :=
    fun _ member => Supply.toward_eq_self (Supply.not_ahead_of_mem member)
  have apart : KeepsApart ((Supply.ofRoots p args).toward (.ofRoots q args)) invocation
      (Expr.namesOf args) := fun x member => by rw [kept x member]
  have run := threadArguments_rename apart (Supply.toward_corresponds _ _)
  rw [Expr.renameAll_eq_self kept] at run
  rw [outcome_threadInvocation_eq_bind, outcome_threadInvocation_eq_bind]
  refine run.bind ?_
  rintro ⟨_, threaded, _⟩ ⟨_, _, _⟩ _ ⟨rfl, _⟩
  exact .ok rfl

/-- Under two stems the same trees are accepted, or the same rule is broken at the same step. The
results are the same but for the spelling of the names that are drawn. -/
theorem agree_up_to_stem (invocation p q : String) :
    (∀ e, SameOutcome
      (fun one other => one.rename ((Supply.ofRoots p [e]).toward (.ofRoots q [e])) = other)
      (Config.expand ⟨invocation, p⟩ e).outcome (Config.expand ⟨invocation, q⟩ e).outcome) ∧
    ∀ args, SameOutcome
      (fun one other => one.rename ((Supply.ofRoots p args).toward (.ofRoots q args)) = other)
      (Config.threadInvocation ⟨invocation, p⟩ args).outcome
      (Config.threadInvocation ⟨invocation, q⟩ args).outcome :=
  ⟨expand_under_stems invocation p q, threadInvocation_under_stems invocation p q⟩

end Config

end Pipelines
