import Pipelines.Proofs.Boundary
import Pipelines.Proofs.Meaning.Frame
import Pipelines.Proofs.Remaining

namespace Pipelines

/-!
# Steady trees

A pipeline hands its value on under a name. A tree is steady if that cannot be
told from handing on the value itself: no step assigns the name before it has
used the value, an aside does not assign it at all, a hole in the place of a
callee does not receive the name that introduces pipelines, and what is assigned
to does not become a name by being expanded. Every pipeline inside a step has
its seed in front.
-/

/-- What is known of the name that a hole stands for. -/
inductive Current where
  /-- Outside of all steps a hole stays a hole. -/
  | outside
  /-- The name has been synthesised. -/
  | unnamed
  /-- The author's name. -/
  | named (x : String)
deriving DecidableEq

namespace Current

/-- The author's name, if there is one, and otherwise a synthesised one. -/
def ofName? : Option String → Current
  | some x => .named x
  | none => .unnamed

/-- What is known of the name of a seed. -/
def ofSeed (current : Current) : Expr → Current
  | .name x => .named x
  | .hole => if current = .outside then .unnamed else current
  | .assign target _ => ofName? target.name?
  | _ => .unnamed

/-- What is known of the name after a step. -/
def after (current : Current) (step : Step) : Current :=
  if step.kind = .aside then current else ofName? step.binding

theorem ofSeed_of_ne_hole {one other : Current} {seed : Expr} (solid : seed ≠ .hole) :
    one.ofSeed seed = other.ofSeed seed := by
  cases seed with
  | hole => exact absurd rfl solid
  | _ => rfl

theorem after_of_aside {current : Current} {step : Step} (aside : step.kind = .aside) :
    current.after step = current :=
  if_pos aside

theorem after_of_bound {current : Current} {step : Step} (bound : step.kind ≠ .aside) :
    current.after step = ofName? step.binding :=
  if_neg bound

end Current

/-- What is assigned to comes down to no name but the one that it is. Inside a step this is so with
the current name in its holes. -/
def Expr.Settled (invocation : String) (target : Expr) : Current → Prop
  | .outside => ∀ x, ComesDownTo invocation x target → target = .name x
  | .unnamed => ∀ c x, c ≠ invocation →
      ComesDownTo invocation x (target.fill invocation (.name c)) → target = .name x
  | .named c => ∀ x, ComesDownTo invocation x (target.fill invocation (.name c)) →
      target = .name x

mutual

/-- A tree in which handing on a name is the same as handing on its value. -/
inductive Steady (invocation : String) : Current → Expr → Prop where
  | name (x : String) : Steady invocation current (.name x)
  | hole : Steady invocation current .hole
  | raw (payload : String) : Steady invocation current (.raw payload)
  | call (plain : callee.name? ≠ some invocation)
      (vacant : callee = .hole → current ≠ .named invocation)
      (parts : SteadyAll invocation current (callee :: args)) :
      Steady invocation current (.call callee args)
  | assign (settled : target.Settled invocation current) (inside : Steady invocation current value) :
      Steady invocation current (.assign target value)
  | block (inside : SteadyAll invocation current lines) : Steady invocation current (.block lines)
  | marked {inner : Expr} (tag : Tag) (inside : Steady invocation current inner) :
      Steady invocation current (.marked tag inner)
  | pipeline (front : current ≠ .outside → Expr.seedInFront invocation args = true)
      (read : Pipeline.ofArguments args = .ok pipeline)
      (first : Steady invocation current pipeline.seed)
      (others : SteadySteps invocation (current.ofSeed pipeline.seed) pipeline.steps) :
      Steady invocation current (.call (.name invocation) args)

/-- Steady trees of which none assigns the name that a hole behind it stands for. -/
inductive SteadyAll (invocation : String) : Current → List Expr → Prop where
  | nil : SteadyAll invocation current []
  | cons (head : Steady invocation current e)
      (ordered : ∀ x, current = .named x → x ∈ e.assigned → Expr.anyHasHole invocation es = false)
      (tail : SteadyAll invocation current es) : SteadyAll invocation current (e :: es)

/-- Steady steps of which no aside assigns the name of the value that it passes on. -/
inductive SteadySteps (invocation : String) : Current → List Step → Prop where
  | nil : SteadySteps invocation current []
  | cons (kept : step.kind = .aside → ∀ x, current = .named x → x ∉ step.expr.assigned)
      (filled : step.expr.hasHole invocation = true → Steady invocation current step.expr)
      (inserted : step.expr.hasHole invocation = false → Receptive invocation current step.expr)
      (tail : SteadySteps invocation (current.after step) steps) :
      SteadySteps invocation current (step :: steps)

/-- An expression that is steady with the value as its first argument. -/
inductive Receptive (invocation : String) : Current → Expr → Prop where
  | assign (settled : target.Settled invocation current)
      (inside : Receptive invocation current value) :
      Receptive invocation current (.assign target value)
  | pipeline (read : Step.ofExprs 1 (Expr.flatten args) = .ok steps)
      (others : SteadySteps invocation current steps) :
      Receptive invocation current (.call (.name invocation) args)
  | call (plain : callee.name? ≠ some invocation)
      (kept : ∀ x, current = .named x → x ∉ callee.assigned)
      (inside : Steady invocation current (.call callee args)) :
      Receptive invocation current (.call callee args)
  | other (unassigned : ∀ target value, e = .assign target value → False)
      (uncalled : ∀ callee args, e = .call callee args → False)
      (kept : ∀ x, current = .named x → x ∉ e.assigned) (inside : Steady invocation current e) :
      Receptive invocation current e

end

universe u

variable {V S : Type u} {invocation : String} {current : Current}

theorem ofSeed_of_plain {index : Nat} {seed : Expr}
    (plain : Step.ofExpr index seed = .ok ⟨index, .plain, none, seed⟩) (unnamed : seed.name? = none) :
    Current.ofSeed .outside seed = .unnamed := by
  cases seed with
  | name x => cases unnamed
  | assign target value => cases Step.isAssignment_of_assign plain
  | _ => rfl

theorem hasHole_seed {args : List Expr} {pipeline : Pipeline}
    (read : Pipeline.ofArguments args = .ok pipeline)
    (front : Expr.seedInFront invocation args = true) :
    pipeline.seed.hasHole invocation =
      (Expr.call (.name invocation) args).hasHole invocation := by
  obtain ⟨es, split, _⟩ := Pipeline.ofArguments_eq_ok.mp read
  rw [Expr.hasHole_pipeline, ← Expr.firstHasHole_flatten front, split, Expr.firstHasHole]

mutual

/-- Without a free hole the current value makes no difference. -/
theorem Steady.run_eq (given : Interpretation V S) (one other : V) :
    ∀ {current : Current} {e : Expr}, Steady invocation current e → current ≠ .outside →
      e.hasHole invocation = false →
      e.run invocation given one = e.run invocation given other
  | _, _, .name x, _, _ => by simp only [Expr.run]
  | _, _, .hole, _, closed => by cases closed
  | _, _, .raw payload, _, _ => by simp only [Expr.run]
  | _, _, .call plain _ (.cons head _ tail), inside, closed => by
      simp only [Expr.hasHole, plain, if_false, Bool.or_eq_false_iff] at closed
      rw [Expr.run_call given plain, Expr.run_call given plain,
        head.run_eq given one other inside closed.1,
        tail.runAll_eq given one other inside closed.2]
  | _, _, .assign _ value, inside, closed => by
      simp only [Expr.hasHole, Bool.or_eq_false_iff] at closed
      simp only [Expr.run, value.run_eq given one other inside closed.2]
  | _, _, .block lines, inside, closed => by
      simp only [Expr.run, lines.runAll_eq given one other inside closed]
  | _, _, .marked tag inner, inside, closed => by
      simp only [Expr.run, inner.run_eq given one other inside closed]
  | _, _, .pipeline front read first _, inside, closed => by
      rw [← hasHole_seed read (front inside)] at closed
      rw [Expr.run_accepted given read, Expr.run_accepted given read,
        first.run_eq given one other inside closed]

theorem SteadyAll.runAll_eq (given : Interpretation V S) (one other : V) :
    ∀ {current : Current} {es : List Expr}, SteadyAll invocation current es →
      current ≠ .outside → Expr.anyHasHole invocation es = false →
      Expr.runAll invocation given one es = Expr.runAll invocation given other es
  | _, _, .nil, _, _ => by simp only [Expr.runAll]
  | _, _, .cons head _ tail, inside, closed => by
      simp only [Expr.anyHasHole, Bool.or_eq_false_iff] at closed
      simp only [Expr.runAll, head.run_eq given one other inside closed.1,
        tail.runAll_eq given one other inside closed.2]

end

theorem Expr.plain_fill {callee : Expr} {x : String} (plain : callee.name? ≠ some invocation)
    (vacant : callee = .hole → x ≠ invocation) :
    (callee.fill invocation (.name x)).name? ≠ some invocation := by
  intro opened
  obtain ⟨hole, same⟩ := Expr.eq_hole_of_name?_fill plain opened
  cases same
  exact vacant hole rfl

theorem Expr.Settled.fill {target : Expr} {x : String}
    (settled : target.Settled invocation current) (inside : current = .named x) :
    (target.fill invocation (.name x)).Settled invocation .outside ∧
      (target.fill invocation (.name x)).name? = target.name? := by
  subst inside
  refine ⟨fun y down => ?_, Option.ext fun y => ?_⟩
  · rw [settled y down]
    rfl
  · rw [Expr.name?_eq_some, Expr.name?_eq_some]
    constructor
    · intro named
      exact settled y (named ▸ .name)
    · intro named
      rw [named]
      rfl

theorem Expr.Settled.outside_of_closed {target : Expr} {x : String}
    (settled : target.Settled invocation (.named x)) (closed : target.hasHole invocation = false) :
    target.Settled invocation .outside := by
  intro y down
  rw [← Expr.fill_of_not_hasHole (.name x) closed] at down
  exact settled y down

theorem Expr.Settled.named {target : Expr} {x : String}
    (settled : target.Settled invocation current) (inside : current = .unnamed)
    (other : x ≠ invocation) : target.Settled invocation (.named x) := by
  subst inside
  exact fun y down => settled x y other down

theorem Expr.settled_name (x : String) : (Expr.name x).Settled invocation .outside := by
  intro y down
  cases down
  rfl

theorem ofArguments_fillFirst {args : List Expr} {pipeline : Pipeline} (x : String)
    (read : Pipeline.ofArguments args = .ok pipeline)
    (front : Expr.seedInFront invocation args = true) :
    Pipeline.ofArguments (Expr.fillFirst invocation args (.name x)) =
      .ok ⟨pipeline.seed.fill invocation (.name x), pipeline.steps⟩ := by
  obtain ⟨es, split, follow⟩ := Pipeline.ofArguments_eq_ok.mp read
  refine Pipeline.ofArguments_eq_ok.mpr ⟨es, ?_, follow⟩
  rw [Expr.flatten_fillFirst front fun _ => rfl, split, Expr.fillFirst]

theorem Steady.ofSeed_fill {x : String} {seed : Expr} (steady : Steady invocation current seed)
    (inside : current = .named x) :
    Current.ofSeed .outside (seed.fill invocation (.name x)) = current.ofSeed seed := by
  subst inside
  cases seed with
  | assign target value =>
      cases steady with
      | assign settled _ =>
          simp only [Expr.fill, Current.ofSeed, (settled.fill rfl).2]
  | call callee args => simp only [Expr.fill]; split <;> rfl
  | _ => rfl

mutual

/-- With a name in place of its holes a tree is steady outside of all steps. -/
theorem Steady.fill {x : String} : ∀ {current : Current} {e : Expr}, Steady invocation current e →
      current = .named x → Steady invocation .outside (e.fill invocation (.name x))
  | _, _, .name y, _ => .name y
  | _, _, .hole, _ => .name x
  | _, _, .raw payload, _ => .raw payload
  | _, _, .call plain vacant (.cons head _ tail), inside => by
      rw [Expr.fill_call plain]
      refine .call (Expr.plain_fill plain fun hole same => ?_) (fun _ => by simp)
        (.cons (head.fill inside) (fun _ named => by cases named) (tail.fill inside))
      exact vacant hole (same ▸ inside)
  | _, _, .assign settled value, inside => .assign (settled.fill inside).1 (value.fill inside)
  | _, _, .block lines, inside => .block (lines.fill inside)
  | _, _, .marked tag inner, inside => .marked tag (inner.fill inside)
  | current, _, .pipeline front read first others, inside => by
      have front := front (by simp [inside])
      rw [Expr.fill_pipeline]
      refine .pipeline (by simp) (ofArguments_fillFirst x read front) (first.fill inside) ?_
      rw [first.ofSeed_fill inside]
      exact others

theorem SteadyAll.fill {x : String} : ∀ {current : Current} {es : List Expr},
    SteadyAll invocation current es → current = .named x →
      SteadyAll invocation .outside (Expr.fillAll invocation es (.name x))
  | _, _, .nil, _ => .nil
  | _, _, .cons head _ tail, inside =>
      .cons (head.fill inside) (fun _ named => by cases named) (tail.fill inside)

end

theorem Expr.withFirstArgument_other {e : Expr} (value : Expr)
    (unassigned : ∀ target bound, e = .assign target bound → False)
    (uncalled : ∀ callee args, e = .call callee args → False) :
    e.withFirstArgument value = .call e [value] := by
  cases e with
  | assign target bound => exact (unassigned _ _ rfl).elim
  | call callee args => exact (uncalled _ _ rfl).elim
  | _ => rfl

theorem ofArguments_name_cons {args : List Expr} {steps : List Step} (x : String)
    (read : Step.ofExprs 1 (Expr.flatten args) = .ok steps) :
    Pipeline.ofArguments (.name x :: args) = .ok ⟨.name x, steps⟩ :=
  Pipeline.ofArguments_eq_ok.mpr ⟨Expr.flatten args, rfl, read⟩

theorem Steady.fill_closed {x : String} {e : Expr} (steady : Steady invocation (.named x) e)
    (closed : e.hasHole invocation = false) : Steady invocation .outside e := by
  have filled := steady.fill rfl
  rwa [Expr.fill_of_not_hasHole _ closed] at filled

/-- With a name as its first argument a receptive expression is steady outside of all steps. -/
theorem Receptive.withFirstArgument {x : String} : ∀ {current : Current} {e : Expr},
    Receptive invocation current e → current = .named x → e.hasHole invocation = false →
      Steady invocation .outside (e.withFirstArgument (.name x))
  | _, _, .assign settled value, inside, closed => by
      simp only [Expr.hasHole, Bool.or_eq_false_iff] at closed
      exact .assign ((inside ▸ settled).outside_of_closed closed.1)
        (value.withFirstArgument inside closed.2)
  | _, _, .pipeline read others, inside, _ => by
      cases inside
      exact .pipeline (by simp) (ofArguments_name_cons x read) (.name x) others
  | _, _, .call plain kept parts, inside, closed => by
      cases inside
      cases parts.fill_closed closed with
      | pipeline => exact absurd rfl plain
      | call _ _ parts =>
          cases parts with
          | cons head _ tail =>
              exact .call plain (fun _ => by simp) (.cons head (fun _ named => by cases named)
                (.cons (.name x) (fun _ named => by cases named) tail))
  | _, e, .other unassigned uncalled kept steady, inside, closed => by
      cases inside
      rw [Expr.withFirstArgument_other _ unassigned uncalled]
      by_cases named : e.name? = some invocation
      · cases Expr.name?_eq_some.mp named
        exact .pipeline (by simp) (ofArguments_name_cons x rfl) (.name x) .nil
      · exact .call named (fun _ => by simp) (.cons (steady.fill_closed closed)
          (fun _ named => by cases named) (.cons (.name x) (fun _ named => by cases named) .nil))

theorem not_mem_names_pipeline {args : List Expr} {pipeline : Pipeline} {x : String}
    (read : Pipeline.ofArguments args = .ok pipeline)
    (absent : x ∉ (Expr.call (.name invocation) args).names) :
    x ∉ pipeline.seed.names ∧ ∀ step ∈ pipeline.steps, x ∉ step.expr.names := by
  obtain ⟨inSeed, inSteps⟩ := Pipeline.names_ofArguments read
  exact ⟨fun member => absent (List.mem_append_right _ (inSeed member)),
    fun step among member => absent (List.mem_append_right _ ((inSteps step among).1 member))⟩

mutual

/-- A synthesised name that is not written in a tree is as good as any. -/
theorem Steady.named {x : String} : ∀ {current : Current} {e : Expr},
    Steady invocation current e → current = .unnamed → x ∉ e.names → x ≠ invocation →
      Steady invocation (.named x) e
  | _, _, .name y, _, _, _ => .name y
  | _, _, .hole, _, _, _ => .hole
  | _, _, .raw payload, _, _, _ => .raw payload
  | _, _, .call plain _ parts, inside, absent, other =>
      .call plain (fun _ same => other (by cases same; rfl)) (parts.named inside absent other)
  | _, _, .assign settled value, inside, absent, other =>
      .assign (settled.named inside other)
        (value.named inside (fun member => absent (by simp [Expr.names, member])) other)
  | _, _, .block lines, inside, absent, other => .block (lines.named inside absent other)
  | _, _, .marked tag inner, inside, absent, other => .marked tag (inner.named inside absent other)
  | _, _, @Steady.pipeline _ args _ pipeline front read first others, inside, absent, other => by
      obtain ⟨inSeed, inSteps⟩ := not_mem_names_pipeline read absent
      have renamed := fun unnamed => others.named unnamed inSteps other
      refine .pipeline (fun _ => front (by simp [inside])) read
        (first.named inside inSeed other) ?_
      by_cases hole : pipeline.seed = .hole
      · have unnamed := renamed (by simp [hole, Current.ofSeed, inside])
        simpa [hole, Current.ofSeed] using unnamed
      · rwa [Current.ofSeed_of_ne_hole hole]

theorem SteadyAll.named {x : String} : ∀ {current : Current} {es : List Expr},
    SteadyAll invocation current es → current = .unnamed → x ∉ Expr.namesOf es → x ≠ invocation →
      SteadyAll invocation (.named x) es
  | _, _, .nil, _, _, _ => .nil
  | _, _, .cons head _ tail, inside, absent, other => by
      simp only [Expr.namesOf, List.mem_append, not_or] at absent
      refine .cons (head.named inside absent.1 other) (fun y named assigned => ?_)
        (tail.named inside absent.2 other)
      cases named
      exact (absent.1 (Expr.assigned_subset_names _ assigned)).elim

theorem SteadySteps.named {x : String} : ∀ {current : Current} {steps : List Step},
    SteadySteps invocation current steps → current = .unnamed →
      (∀ step ∈ steps, x ∉ step.expr.names) → x ≠ invocation →
      SteadySteps invocation (.named x) steps
  | _, _, .nil, _, _, _ => .nil
  | _, step :: _, .cons kept filled inserted tail, inside, absent, other => by
      obtain ⟨first, others⟩ := List.forall_mem_cons.mp absent
      have renamed := fun unnamed => tail.named unnamed others other
      refine .cons (fun _ y named assigned => ?_) (fun holes => (filled holes).named inside first other)
        (fun closed => (inserted closed).named inside first other) ?_
      · cases named
        exact first (Expr.assigned_subset_names _ assigned)
      · by_cases aside : step.kind = .aside
        · rw [Current.after_of_aside aside] at renamed ⊢
          exact renamed inside
        · rw [Current.after_of_bound aside] at tail ⊢
          exact tail

theorem Receptive.named {x : String} : ∀ {current : Current} {e : Expr},
    Receptive invocation current e → current = .unnamed → x ∉ e.names → x ≠ invocation →
      Receptive invocation (.named x) e
  | _, _, .assign settled value, inside, absent, other =>
      .assign (settled.named inside other)
        (value.named inside (fun member => absent (by simp [Expr.names, member])) other)
  | _, _, .pipeline read others, inside, absent, other => by
      refine .pipeline read (others.named inside (fun step among member => absent ?_) other)
      have written := (Step.names_ofExprs read step among).1 member
      rw [Expr.namesOf_flatten] at written
      simp [Expr.names, written]
  | _, _, .call plain _ parts, inside, absent, other => by
      refine .call plain (fun y named assigned => absent ?_) (parts.named inside absent other)
      cases named
      simp [Expr.names, Expr.assigned_subset_names _ assigned]
  | _, _, .other unassigned uncalled _ steady, inside, absent, other => by
      refine .other unassigned uncalled (fun y named assigned => absent ?_)
        (steady.named inside absent other)
      cases named
      exact Expr.assigned_subset_names _ assigned

end

end Pipelines
