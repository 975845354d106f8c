import Pipelines.Proofs.Fresh
import Pipelines.Proofs.Remaining

namespace Pipelines

/-!
# The name of pipelines

A tree in which the name of pipelines is a callee and nothing else is expanded
into one without that name. The names that are handed on are those of seeds and
assignments, or synthesised, and none of them is the name of pipelines. So the
name never comes to stand elsewhere, and every call of it is threaded.
-/

open Supply (Later Drawn)

variable {invocation : String} {supply middle rest : Supply}

namespace Expr

mutual

/-- Whether the name of pipelines occurs in a tree only as a callee. -/
def onlyCalls (invocation : String) : Expr → Bool
  | .name x => x != invocation
  | .call callee args =>
      (callee.name? == some invocation || callee.onlyCalls invocation) &&
        onlyCallsAll invocation args
  | .assign target value => target.onlyCalls invocation && value.onlyCalls invocation
  | .block lines => onlyCallsAll invocation lines
  | .marked _ inner => inner.onlyCalls invocation
  | .hole | .raw _ => true

def onlyCallsAll (invocation : String) : List Expr → Bool
  | [] => true
  | e :: es => e.onlyCalls invocation && onlyCallsAll invocation es

end

@[simp] theorem onlyCalls_name {x : String} :
    (Expr.name x).onlyCalls invocation = true ↔ x ≠ invocation := by
  simp [onlyCalls]

theorem onlyCalls_call {callee : Expr} {args : List Expr} :
    (Expr.call callee args).onlyCalls invocation = true ↔
      (callee = .name invocation ∨ callee.onlyCalls invocation = true) ∧
        onlyCallsAll invocation args = true := by
  simp [onlyCalls]

@[simp] theorem onlyCalls_assign {target value : Expr} :
    (Expr.assign target value).onlyCalls invocation = true ↔
      target.onlyCalls invocation = true ∧ value.onlyCalls invocation = true := by
  simp [onlyCalls]

@[simp] theorem onlyCallsAll_cons {e : Expr} {es : List Expr} :
    onlyCallsAll invocation (e :: es) = true ↔
      e.onlyCalls invocation = true ∧ onlyCallsAll invocation es = true := by
  simp [onlyCallsAll]

theorem onlyCallsAll_append {es fs : List Expr} :
    onlyCallsAll invocation (es ++ fs) = true ↔
      onlyCallsAll invocation es = true ∧ onlyCallsAll invocation fs = true := by
  induction es with
  | nil => simp [onlyCallsAll]
  | cons e es ih => simp [ih, and_assoc]

mutual

theorem onlyCallsAll_splice (e : Expr) :
    onlyCallsAll invocation e.splice = true ↔ e.onlyCalls invocation = true := by
  cases e with
  | block lines => exact onlyCallsAll_flatten lines
  | _ => simp [splice, onlyCallsAll]

theorem onlyCallsAll_flatten (es : List Expr) :
    onlyCallsAll invocation (flatten es) = true ↔ onlyCallsAll invocation es = true := by
  cases es with
  | nil => rfl
  | cons e es =>
      rw [flatten, onlyCallsAll_append, onlyCallsAll_splice e, onlyCallsAll_flatten es,
        onlyCallsAll_cons]

end

variable {x : String}

mutual

theorem onlyCalls_fill (other : x ≠ invocation) {e : Expr}
    (only : e.onlyCalls invocation = true) :
    (e.fill invocation (.name x)).onlyCalls invocation = true := by
  cases e with
  | call callee args =>
      obtain ⟨head, tail⟩ := onlyCalls_call.mp only
      by_cases pipeline : callee.name? = some invocation
      · rw [fill, if_pos pipeline]
        exact onlyCalls_call.mpr ⟨head, onlyCallsAll_fillFirst other tail⟩
      · rw [fill, if_neg pipeline]
        have plain := head.resolve_left fun named => pipeline (name?_eq_some.mpr named)
        exact onlyCalls_call.mpr
          ⟨.inr (onlyCalls_fill other plain), onlyCallsAll_fillAll other tail⟩
  | assign target value =>
      obtain ⟨first, second⟩ := onlyCalls_assign.mp only
      exact onlyCalls_assign.mpr ⟨onlyCalls_fill other first, onlyCalls_fill other second⟩
  | block lines => exact onlyCallsAll_fillAll other only
  | marked tag inner => exact onlyCalls_fill other (e := inner) only
  | hole => exact onlyCalls_name.mpr other
  | name y => exact only
  | raw payload => rfl

theorem onlyCallsAll_fillFirst (other : x ≠ invocation) {es : List Expr}
    (only : onlyCallsAll invocation es = true) :
    onlyCallsAll invocation (fillFirst invocation es (.name x)) = true := by
  cases es with
  | nil => rfl
  | cons e es =>
      obtain ⟨first, others⟩ := onlyCallsAll_cons.mp only
      exact onlyCallsAll_cons.mpr ⟨onlyCalls_fill other first, others⟩

theorem onlyCallsAll_fillAll (other : x ≠ invocation) {es : List Expr}
    (only : onlyCallsAll invocation es = true) :
    onlyCallsAll invocation (fillAll invocation es (.name x)) = true := by
  cases es with
  | nil => rfl
  | cons e es =>
      obtain ⟨first, others⟩ := onlyCallsAll_cons.mp only
      exact onlyCallsAll_cons.mpr ⟨onlyCalls_fill other first, onlyCallsAll_fillAll other others⟩

end

theorem onlyCalls_withFirstArgument (other : x ≠ invocation) {e : Expr}
    (only : e.onlyCalls invocation = true) :
    (e.withFirstArgument (.name x)).onlyCalls invocation = true := by
  cases e with
  | assign target value =>
      obtain ⟨first, second⟩ := onlyCalls_assign.mp only
      exact onlyCalls_assign.mpr ⟨first, onlyCalls_withFirstArgument other second⟩
  | call callee args =>
      obtain ⟨head, tail⟩ := onlyCalls_call.mp only
      exact onlyCalls_call.mpr ⟨head, onlyCallsAll_cons.mpr ⟨onlyCalls_name.mpr other, tail⟩⟩
  | _ =>
      exact onlyCalls_call.mpr
        ⟨.inr only, onlyCallsAll_cons.mpr ⟨onlyCalls_name.mpr other, rfl⟩⟩

theorem onlyCalls_feed (other : x ≠ invocation) {e : Expr}
    (only : e.onlyCalls invocation = true) :
    (e.feed invocation (.name x)).onlyCalls invocation = true := by
  rw [feed]
  split
  · exact onlyCalls_fill other only
  · exact onlyCalls_withFirstArgument other only

end Expr

theorem Step.onlyCalls_ofExpr {index : Nat} {e : Expr} {step : Step}
    (read : Step.ofExpr index e = .ok step) (only : e.onlyCalls invocation = true) :
    step.expr.onlyCalls invocation = true ∧ ∀ y, step.binding = some y → y ≠ invocation := by
  have body : step.body.onlyCalls invocation = step.expr.onlyCalls invocation := by
    unfold Step.body
    split <;> rfl
  rcases Step.ofExpr_cases read with ⟨_, unbound, rfl⟩ | ⟨_, unbound, rfl⟩ | ⟨_, y, bound, rfl⟩
  · exact ⟨only, by simp [unbound]⟩
  · exact ⟨body ▸ only, by simp [unbound]⟩
  · obtain ⟨target, value⟩ := Expr.onlyCalls_assign.mp only
    refine ⟨body ▸ value, fun z author => ?_⟩
    rw [bound] at author
    cases author
    exact Expr.onlyCalls_name.mp target

theorem Step.onlyCalls_value {step : Step} {current : String} (other : current ≠ invocation)
    (only : step.expr.onlyCalls invocation = true) :
    (step.value invocation current).onlyCalls invocation = true := by
  rw [Step.value]
  split
  · exact Expr.onlyCalls_call.mpr
      ⟨.inr only, Expr.onlyCallsAll_cons.mpr ⟨Expr.onlyCalls_name.mpr other, rfl⟩⟩
  · exact Expr.onlyCalls_feed other only

theorem Statement.onlyCalls_toExpr {statement : Statement}
    (named : ∀ x, statement.binding.name? = some x → x ≠ invocation)
    (only : statement.value.onlyCalls invocation = true) :
    statement.toExpr.onlyCalls invocation = true := by
  unfold Statement.toExpr
  split
  · exact Expr.onlyCalls_assign.mpr ⟨Expr.onlyCalls_name.mpr (named _ ‹_›), only⟩
  · exact only

theorem Step.onlyCalls_thread {index : Nat} {e : Expr} {step : Step} {current name : String}
    {statement : Statement} (read : Step.ofExpr index e = .ok step)
    (threaded : step.thread invocation current supply = (statement, name, rest))
    (only : e.onlyCalls invocation = true) (other : current ≠ invocation)
    (reserved : ¬ supply.Ahead invocation) :
    name ≠ invocation ∧ statement.toExpr.onlyCalls invocation = true := by
  obtain ⟨inExpr, inBinding⟩ := Step.onlyCalls_ofExpr read only
  obtain ⟨value, _, cases⟩ := Step.thread_cases threaded
  have named : name ≠ invocation ∧ ∀ x, statement.binding.name? = some x → x ≠ invocation := by
    rcases cases with ⟨_, discard, rfl⟩ | ⟨_, author, user⟩ | ⟨_, _, temp, drawn⟩
    · exact ⟨other, by simp [discard, Binding.name?]⟩
    · have chosen := inBinding name author
      exact ⟨chosen, by simp [user, Binding.name?, chosen]⟩
    · have fresh : name ≠ invocation := fun same => reserved (same ▸ drawn.1)
      exact ⟨fresh, by simp [temp, Binding.name?, fresh]⟩
  exact ⟨named.1, Statement.onlyCalls_toExpr named.2 (value ▸ Step.onlyCalls_value other inExpr)⟩

theorem onlyCalls_threadSteps {index : Nat} {es : List Expr} {steps : List Step} {current : String}
    (read : Step.ofExprs index es = .ok steps) (only : Expr.onlyCallsAll invocation es = true)
    (other : current ≠ invocation) (reserved : ¬ supply.Ahead invocation) :
    (threadSteps invocation steps current supply).2.1 ≠ invocation ∧
      Expr.onlyCallsAll invocation
        ((threadSteps invocation steps current supply).1.map Statement.toExpr) = true := by
  induction es generalizing index steps current supply with
  | nil =>
      cases read
      exact ⟨other, rfl⟩
  | cons e es ih =>
      obtain ⟨step, others, first, follow, rfl⟩ := Step.ofExprs_cons_eq_ok.mp read
      obtain ⟨head, tail⟩ := Expr.onlyCallsAll_cons.mp only
      rcases threaded : step.thread invocation current supply with ⟨statement, name, after⟩
      obtain ⟨_, later, _⟩ := Step.thread_cases threaded
      obtain ⟨named, line⟩ := Step.onlyCalls_thread first threaded head other reserved
      obtain ⟨last, lines⟩ := ih follow tail named fun ahead => reserved (later.ahead ahead)
      simp only [threadSteps, threaded, List.map_cons]
      exact ⟨last, Expr.onlyCallsAll_cons.mpr ⟨line, lines⟩⟩

theorem onlyCalls_nameSeed {seed : Expr} {start : List Statement} {current : String}
    (named : nameSeed seed supply = .ok (start, current, rest))
    (only : seed.onlyCalls invocation = true) (reserved : ¬ supply.Ahead invocation) :
    current ≠ invocation ∧
      Expr.onlyCallsAll invocation (start.map Statement.toExpr) = true := by
  rcases nameSeed_cases named with ⟨rfl, rfl, _⟩ | ⟨value, rfl, rfl, _⟩ | ⟨_, _, rfl, next⟩
  · exact ⟨Expr.onlyCalls_name.mp only, rfl⟩
  · exact ⟨Expr.onlyCalls_name.mp (Expr.onlyCalls_assign.mp only).1,
      Expr.onlyCallsAll_cons.mpr ⟨only, rfl⟩⟩
  · have fresh : current ≠ invocation := fun same =>
      reserved (same ▸ (Supply.drawn_of_eq_next next).1)
    exact ⟨fresh, Expr.onlyCallsAll_cons.mpr
      ⟨Expr.onlyCalls_assign.mpr ⟨Expr.onlyCalls_name.mpr fresh, only⟩, rfl⟩⟩

/-- A pipeline is threaded into an expression that has the name of pipelines only as a callee, if
its arguments do and that name is not drawn. -/
theorem onlyCalls_threadArguments {args : List Expr} {pipeline : Pipeline} {threaded : Threaded}
    (accepted : threadArguments invocation args supply = .ok (pipeline, threaded, rest))
    (only : Expr.onlyCallsAll invocation args = true) (reserved : ¬ supply.Ahead invocation) :
    threaded.toExpr.onlyCalls invocation = true := by
  obtain ⟨read, done⟩ := threadArguments_eq_ok.mp accepted
  obtain ⟨es, split, follow⟩ := Pipeline.ofArguments_eq_ok.mp read
  rw [← Expr.onlyCallsAll_flatten, split, Expr.onlyCallsAll_cons] at only
  by_cases none : pipeline.steps = []
  · rw [none, thread_nil] at done
    cases done
    exact only.1
  obtain ⟨start, current, middle, named, statements, final, rfl⟩ := (thread_eq_ok none).mp done
  have later := nameSeed_later named
  obtain ⟨first, seeded⟩ := onlyCalls_nameSeed named only.1 reserved
  obtain ⟨last, stepped⟩ := onlyCalls_threadSteps follow only.2 first
    fun ahead => reserved (later.ahead ahead)
  rw [toExpr_of_steps none done, Expr.onlyCalls, statements, final, List.map_append,
    Expr.onlyCallsAll_append, Expr.onlyCallsAll_append]
  exact ⟨⟨seeded, stepped⟩, Expr.onlyCallsAll_cons.mpr ⟨Expr.onlyCalls_name.mpr last, rfl⟩⟩

theorem InTurn.invocation_not_mem {es es' : List Expr}
    (run : InTurn (fun e before e' after => ∃ _ : Expands invocation e before e' after,
      e.onlyCalls invocation = true → (invocation ∈ e.names → ¬ before.Ahead invocation) →
        invocation ∉ e'.names) es supply es' rest)
    (only : Expr.onlyCallsAll invocation es = true)
    (reserved : invocation ∈ Expr.namesOf es → ¬ supply.Ahead invocation) :
    invocation ∉ Expr.namesOf es' := by
  induction run with
  | nil => simp [Expr.namesOf]
  | cons head _ ih =>
      obtain ⟨expands, absent⟩ := head
      obtain ⟨first, others⟩ := Expr.onlyCallsAll_cons.mp only
      rw [Expr.namesOf, List.mem_append, not_or]
      exact ⟨absent first fun member => reserved (List.mem_append_left _ member),
        ih others fun member ahead =>
          reserved (List.mem_append_right _ member) (expands.later.ahead ahead)⟩

theorem Expands.invocation_not_mem {e expanded : Expr}
    (run : Expands invocation e supply expanded rest) (only : e.onlyCalls invocation = true)
    (reserved : invocation ∈ e.names → ¬ supply.Ahead invocation) :
    invocation ∉ expanded.names := by
  induction run using Expands.induction with
  | name x =>
      exact fun member => Expr.onlyCalls_name.mp only (List.mem_singleton.mp member).symm
  | hole | raw => simp [Expr.names]
  | call plain head _ first others =>
      obtain ⟨callee, args⟩ := Expr.onlyCalls_call.mp only
      have solid := callee.resolve_left fun named => plain (Expr.name?_eq_some.mpr named)
      exact InTurn.invocation_not_mem (.cons ⟨head, first⟩ others)
        (Expr.onlyCallsAll_cons.mpr ⟨solid, args⟩) reserved
  | assign head tail first second =>
      obtain ⟨target, value⟩ := Expr.onlyCalls_assign.mp only
      have parts := InTurn.invocation_not_mem
        (.cons ⟨head, first⟩ (.cons ⟨tail, second⟩ (.nil _)))
        (by simp [target, value, Expr.onlyCallsAll])
        (by simpa [Expr.names, Expr.namesOf] using reserved)
      simpa [Expr.names, Expr.namesOf] using parts
  | block _ others => exact others.invocation_not_mem only reserved
  | marked _ _ ih => exact ih only reserved
  | pipeline accepted _ ih =>
      have old := reserved List.mem_cons_self
      exact ih (onlyCalls_threadArguments accepted (Expr.onlyCalls_call.mp only).2 old)
        fun _ ahead => old ((threadArguments_later accepted).ahead ahead)

namespace Config

/-- A tree that has the name of pipelines only as a callee expands to one without that name. -/
theorem expand_eliminates_invocation {config : Config} {e expanded : Expr}
    (only : e.onlyCalls config.invocation = true)
    (done : (config.expand e).outcome = .ok expanded) :
    config.invocation ∉ expanded.names := by
  obtain ⟨rest, run⟩ := outcome_expand.mp done
  exact run.invocation_not_mem only Supply.not_ahead_of_mem_names

/-- With `t1` as the name of pipelines and `t` as the stem, the callee `t1(f(), g)` becomes a block,
a hole becomes a callee, and the names that are synthesised leave `t1` out. -/
theorem expand_eliminates_invocation_that_has_the_stem :
    (Expr.call (.call (.name "t1") [.call (.name "f") [], .name "g"]) [.call (.name "t1")
      [.name "x", .call .hole [.call (.name "t1") [.hole, .name "h"]]]]).onlyCalls "t1" = true ∧
    (expand ⟨"t1", "t"⟩ (.call (.call (.name "t1") [.call (.name "f") [], .name "g"])
      [.call (.name "t1")
        [.name "x", .call .hole [.call (.name "t1") [.hole, .name "h"]]]])).outcome =
      .ok (.call (.block [.assign (.name "t2") (.call (.name "f") []),
          .assign (.name "t3") (.call (.name "g") [.name "t2"]), .name "t3"])
        [.block [.assign (.name "t4") (.call (.name "x")
          [.block [.assign (.name "t5") (.call (.name "h") [.name "x"]), .name "t5"]]),
          .name "t4"]]) ∧
    "t1" ∉ (Expr.call (.block [.assign (.name "t2") (.call (.name "f") []),
          .assign (.name "t3") (.call (.name "g") [.name "t2"]), .name "t3"])
        [.block [.assign (.name "t4") (.call (.name "x")
          [.block [.assign (.name "t5") (.call (.name "h") [.name "x"]), .name "t5"]]),
          .name "t4"]]).names := by
  have done : (expand ⟨"t1", "t"⟩ (.call (.call (.name "t1") [.call (.name "f") [], .name "g"])
      [.call (.name "t1")
        [.name "x", .call .hole [.call (.name "t1") [.hole, .name "h"]]]])).outcome =
      .ok (.call (.block [.assign (.name "t2") (.call (.name "f") []),
          .assign (.name "t3") (.call (.name "g") [.name "t2"]), .name "t3"])
        [.block [.assign (.name "t4") (.call (.name "x")
          [.block [.assign (.name "t5") (.call (.name "h") [.name "x"]), .name "t5"]]),
          .name "t4"]]) := by cbv
  exact ⟨by decide, done, expand_eliminates_invocation (by decide) done⟩

end Config

end Pipelines
