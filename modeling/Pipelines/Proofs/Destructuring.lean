import Mathlib.Data.List.Forall2
import Pipelines.Proofs.Receiving

namespace Pipelines

variable {invocation : String} {supply : Supply}

namespace Expr

/-- An assignment to anything but a bare name. -/
def destructures : Expr → Bool
  | .assign target _ => target.name?.isNone
  | _ => false

/-- An aside that assigns to neither a bare name nor a hole, which a name fills. -/
def isDestructuringAside : Expr → Bool
  | .marked .aside (.assign target _) => target.name?.isNone && !target.isHole
  | _ => false

theorem destructures_eq_false_iff {e : Expr} :
    e.destructures = false ↔ ∀ target value, e = .assign target value → ∃ y, target = .name y := by
  cases e with
  | assign target value =>
      cases target <;> simp [destructures, name?]
  | _ => simp [destructures]

theorem destructures_fill_assign (target value : Expr) (x : String) :
    ((Expr.assign target value).fill invocation (.name x)).destructures =
      (target.name?.isNone && !target.isHole) := by
  simp only [fill, destructures]
  by_cases vacant : target = .hole
  · subst vacant
    rfl
  · have solid := isHole_eq_false_iff.mpr vacant
    simp [name?_fill (Expr.name x) solid, solid]

/-- An expression that has received a name destructures if it did so before, other than by a
hole. -/
theorem destructures_feed (inner : Expr) (x : String) :
    (inner.feed invocation (.name x)).destructures =
      (Expr.marked .aside inner).isDestructuringAside := by
  cases inner with
  | assign target value =>
      by_cases holes : (Expr.assign target value).hasHole invocation = true
      · rw [feed, if_pos holes, destructures_fill_assign]
        rfl
      · have solid : target.isHole = false := by
          rw [isHole_eq_false_iff]
          rintro rfl
          exact holes rfl
        rw [feed, if_neg holes]
        simp [withFirstArgument, destructures, isDestructuringAside, solid]
  | call callee args =>
      rw [feed]
      split
      · rw [fill]
        split <;> rfl
      · rfl
  | _ =>
      rw [feed]
      split <;> rfl

end Expr

/-- What line an expression becomes as a step: an aside the expression that has received a name,
and any other step an assignment to a bare name. -/
inductive LineOf (invocation : String) : Expr → Expr → Prop where
  | aside (inner : Expr) (x : String) :
      LineOf invocation (inner.feed invocation (.name x)) (.marked .aside inner)
  | bound (kept : ∀ inner, e ≠ .marked .aside inner) (y : String) (value : Expr) :
      LineOf invocation (.assign (.name y) value) e

theorem LineOf.destructures_iff {line e : Expr} (becomes : LineOf invocation line e) :
    line.destructures = true ↔ e.isDestructuringAside = true := by
  cases becomes with
  | aside inner x => rw [Expr.destructures_feed]
  | bound kept y value =>
      have unmarked : e.isDestructuringAside = false := by
        unfold Expr.isDestructuringAside
        split
        · exact absurd rfl (kept _)
        · rfl
      simp [unmarked, Expr.destructures]

theorem LineOf.exists_aside {line e : Expr} (becomes : LineOf invocation line e)
    (destructures : line.destructures = true) :
    ∃ inner x, e = .marked .aside inner ∧ line = inner.feed invocation (.name x) := by
  cases becomes with
  | aside inner x => exact ⟨inner, x, rfl, rfl⟩
  | bound kept y value => cases destructures

theorem Statement.exists_toExpr_eq_assign {statement : Statement}
    (kept : statement.binding ≠ .discard) :
    ∃ y, statement.toExpr = .assign (.name y) statement.value := by
  cases bound : statement.binding with
  | discard => exact absurd bound kept
  | _ => exact ⟨_, by rw [toExpr, bound]; rfl⟩

theorem Step.thread_kept {step : Step} (bound : step.kind ≠ .aside) (current : String)
    (supply : Supply) : (step.thread invocation current supply).1.binding ≠ .discard := by
  rw [Step.thread_bound bound]
  exact supply.choose_ne_discard step.binding

theorem Step.lineOf_thread {index : Nat} {e : Expr} {step : Step}
    (read : Step.ofExpr index e = .ok step) (current : String) (supply : Supply) :
    LineOf invocation (step.thread invocation current supply).1.toExpr e := by
  by_cases aside : step.kind = .aside
  · have line : (step.thread invocation current supply).1.toExpr =
        step.expr.feed invocation (.name current) := by
      simp [Step.thread_aside aside, Statement.toExpr, Binding.name?, Step.value, aside,
        StepKind.isBroadcast]
    rw [line, Step.eq_of_aside read aside]
    exact .aside step.expr current
  · obtain ⟨y, line⟩ := Statement.exists_toExpr_eq_assign (step.thread_kept aside current supply)
    rw [line]
    exact .bound (fun _ => Step.plain_of_not_aside read aside) y _

theorem lineOf_threadSteps {index : Nat} {es : List Expr} {steps : List Step}
    (read : Step.ofExprs index es = .ok steps) (current : String) (supply : Supply) :
    List.Forall₂ (LineOf invocation)
      ((threadSteps invocation steps current supply).1.map Statement.toExpr) es := by
  induction es generalizing index steps current supply with
  | nil =>
      cases read
      exact .nil
  | cons e es ih =>
      obtain ⟨step, others, first, follow, rfl⟩ := Step.ofExprs_cons_eq_ok.mp read
      exact .cons (Step.lineOf_thread first current supply) (ih follow _ _)

theorem filter_destructures_nameSeed {seed : Expr} {start : List Statement} {current : String}
    {rest : Supply} (named : nameSeed seed supply = .ok (start, current, rest)) :
    (start.map Statement.toExpr).filter Expr.destructures = [] := by
  rw [List.filter_eq_nil_iff, List.forall_mem_map]
  intro statement member
  obtain ⟨y, line⟩ := Statement.exists_toExpr_eq_assign ((nameSeed_named named).1 statement member)
  simp [line, Expr.destructures]

/-- The lines of a block that destructure are in turn what the destructuring asides become. -/
theorem destructures_threadArguments {args : List Expr} {pipeline : Pipeline} {threaded : Threaded}
    {rest : Supply} (several : 2 ≤ (Expr.flatten args).length)
    (accepted : threadArguments invocation args supply = .ok (pipeline, threaded, rest)) :
    ∃ lines, threaded.toExpr = .block lines ∧
      List.Forall₂ (LineOf invocation) (lines.filter Expr.destructures)
        ((Expr.flatten args).tail.filter Expr.isDestructuringAside) := by
  obtain ⟨read, threading⟩ := threadArguments_eq_ok.mp accepted
  obtain ⟨es, split, follow⟩ := Pipeline.ofArguments_eq_ok.mp read
  have some : pipeline.steps ≠ [] := by
    intro none
    rw [none] at follow
    rw [split, Step.ofExprs_eq_nil follow] at several
    simp at several
  obtain ⟨start, current, middle, named, statements, final, _⟩ := (thread_eq_ok some).mp threading
  refine ⟨_, toExpr_of_steps some threading, ?_⟩
  have ofSteps : (threaded.statements.map Statement.toExpr ++ [threaded.final]).filter
        Expr.destructures =
      ((threadSteps invocation pipeline.steps current middle).1.map Statement.toExpr).filter
        Expr.destructures := by
    simp [statements, final, List.filter_append, filter_destructures_nameSeed named,
      Expr.destructures]
  rw [ofSteps, split, List.tail_cons]
  exact List.rel_filter (fun _ _ becomes => becomes.destructures_iff)
    (lineOf_threadSteps follow current middle)

namespace Config

/-- The lines of a threaded pipeline that assign to anything but a bare name are those of its
destructuring asides, one for each and in their order. -/
theorem transformInvocation_assigns_names {config : Config} {args : List Expr} {result : Expr}
    (several : 2 ≤ (Expr.flatten args).length)
    (done : (config.transformInvocation args).outcome = .ok result) :
    ∃ lines, result = .block lines ∧
      List.Forall₂ (fun line step => ∃ inner x, step = .marked .aside inner ∧
          line = inner.feed config.invocation (.name x))
        (lines.filter Expr.destructures)
        ((Expr.flatten args).tail.filter Expr.isDestructuringAside) ∧
      ((∀ target value, .assign target value ∈ lines → ∃ y, target = .name y) ↔
        ∀ step ∈ (Expr.flatten args).tail, step.isDestructuringAside = false) := by
  obtain ⟨threaded, accepted, built⟩ := Traced.outcome_bind_eq_ok.mp done
  cases built
  obtain ⟨pipeline, rest, accepted⟩ := outcome_threadInvocation.mp accepted
  obtain ⟨lines, block, become⟩ := destructures_threadArguments several accepted
  refine ⟨lines, block, ?exactly, ?names⟩
  case exactly =>
    refine ((List.forall₂_and_left _ _).mpr ⟨fun line among => ?_, become⟩).imp
      fun line step parts => parts.2.exists_aside parts.1
    exact (List.mem_filter.mp among).2
  case names =>
    have none : lines.filter Expr.destructures = [] ↔
        (Expr.flatten args).tail.filter Expr.isDestructuringAside = [] := by
      rw [← List.length_eq_zero_iff, become.length_eq, List.length_eq_zero_iff]
    simp only [List.filter_eq_nil_iff, Bool.not_eq_true] at none
    rw [← none]
    constructor
    · intro named line among
      rw [Expr.destructures_eq_false_iff]
      rintro target value rfl
      exact named target value among
    · intro kept target value among
      exact Expr.destructures_eq_false_iff.mp (kept _ among) target value rfl

/-- In `@chain(f(), begin @aside _ = g; @. h end)` the aside assigns a hole, which is filled with a
name. -/
theorem transformInvocation_assigns_names_of_filled_aside :
    2 ≤ (Expr.flatten [.call (.name "f") [], .block [.marked .aside (.assign .hole (.name "g")),
        .marked .broadcast (.name "h")]]).length ∧
    (transformInvocation {} [.call (.name "f") [],
        .block [.marked .aside (.assign .hole (.name "g")), .marked .broadcast (.name "h")]]).outcome =
      .ok (.block [.assign (.name "__chain_1") (.call (.name "f") []),
        .assign (.name "__chain_1") (.name "g"),
        .assign (.name "__chain_2") (.call (.marked .broadcast (.name "h")) [.name "__chain_1"]),
        .name "__chain_2"]) ∧
    ∀ target value, Expr.assign target value ∈
      ([.assign (.name "__chain_1") (.call (.name "f") []),
        .assign (.name "__chain_1") (.name "g"),
        .assign (.name "__chain_2") (.call (.marked .broadcast (.name "h")) [.name "__chain_1"]),
        .name "__chain_2"] : List Expr) → ∃ y, target = .name y := by
  have several : 2 ≤ (Expr.flatten [.call (.name "f") [],
      .block [.marked .aside (.assign .hole (.name "g")),
        .marked .broadcast (.name "h")]]).length := by decide
  have done : (transformInvocation {} [.call (.name "f") [],
        .block [.marked .aside (.assign .hole (.name "g")), .marked .broadcast (.name "h")]]).outcome =
      .ok (.block [.assign (.name "__chain_1") (.call (.name "f") []),
        .assign (.name "__chain_1") (.name "g"),
        .assign (.name "__chain_2") (.call (.marked .broadcast (.name "h")) [.name "__chain_1"]),
        .name "__chain_2"]) := by cbv
  obtain ⟨_, built, _, names⟩ := transformInvocation_assigns_names several done
  cases built
  exact ⟨several, done, names.mpr (by decide)⟩

/-- The aside of `@chain(x, @aside tuple(a, b) = g)` leaves a line that destructures. -/
theorem transformInvocation_keeps_destructuring_aside :
    2 ≤ (Expr.flatten [.name "x", .marked .aside
        (.assign (.call (.name "tuple") [.name "a", .name "b"]) (.name "g"))]).length ∧
    (transformInvocation {} [.name "x", .marked .aside
        (.assign (.call (.name "tuple") [.name "a", .name "b"]) (.name "g"))]).outcome =
      .ok (.block [.assign (.call (.name "tuple") [.name "a", .name "b"])
        (.call (.name "g") [.name "x"]), .name "x"]) ∧
    ¬ ∀ (config : Config) (args lines : List Expr), 2 ≤ (Expr.flatten args).length →
      (config.transformInvocation args).outcome = .ok (.block lines) →
      ∀ target value, .assign target value ∈ lines → ∃ y, target = .name y := by
  have several : 2 ≤ (Expr.flatten [.name "x", .marked .aside
      (.assign (.call (.name "tuple") [.name "a", .name "b"]) (.name "g"))]).length := by decide
  have done : (transformInvocation {} [.name "x", .marked .aside
        (.assign (.call (.name "tuple") [.name "a", .name "b"]) (.name "g"))]).outcome =
      .ok (.block [.assign (.call (.name "tuple") [.name "a", .name "b"])
        (.call (.name "g") [.name "x"]), .name "x"]) := by cbv
  refine ⟨several, done, fun always => ?_⟩
  obtain ⟨y, named⟩ := always {} _ _ several done _ _ List.mem_cons_self
  cases named

end Config

end Pipelines
