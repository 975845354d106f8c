import Pipelines.Proofs.Meaning.Steady

namespace Pipelines

universe u

variable {V S : Type u} {invocation x : String} {value : V} {hidden : String → Prop}
  {after : Option (String × V)}

/-- What is held after evaluation: nothing any more, or still the value, as long as the name has not
been assigned. -/
def HeldAfter (x : String) (value : V) (assigned : List String) (after : Option (String × V)) :
    Prop :=
  after = none ∨ (after = some (x, value) ∧ x ∉ assigned)

theorem HeldAfter.same {assigned : List String} (value : V) (absent : x ∉ assigned) :
    HeldAfter x value assigned (some (x, value)) :=
  .inr ⟨rfl, absent⟩

theorem HeldAfter.released (x : String) (value : V) (assigned : List String) :
    HeldAfter x value assigned none :=
  .inl rfl

theorem HeldAfter.mono {assigned less : List String} (kept : HeldAfter x value assigned after)
    (fewer : less ⊆ assigned) : HeldAfter x value less after := by
  rcases kept with none | ⟨some, absent⟩
  · exact .inl none
  · exact .inr ⟨some, fun member => absent (fewer member)⟩

theorem HeldAfter.respects {names assigned : List String} (kept : HeldAfter x value assigned after)
    (visible : ∀ y ∈ names, ¬ hidden y) : Respects hidden after names assigned := by
  refine ⟨visible, fun y v same => ?_⟩
  rcases kept with none | ⟨some, absent⟩
  · rw [none] at same
    cases same
  · rw [some] at same
    cases same
    exact absent

theorem HeldAfter.enter {α : Type u} {assigned : List String} {first second : StateM (World V S) α}
    (kept : HeldAfter x value assigned after)
    (simulates : Simulates hidden after after first second) :
    Simulates hidden (some (x, value)) after first second := by
  rcases kept with rfl | ⟨rfl, _⟩
  · exact simulates.forget
  · exact simulates

theorem HeldAfter.leave {α : Type u} {assigned : List String} {first second : StateM (World V S) α}
    (kept : HeldAfter x value assigned after)
    (simulates : Simulates hidden (some (x, value)) (some (x, value)) first second) :
    Simulates hidden (some (x, value)) after first second := by
  intro left right alike
  obtain ⟨same, held⟩ := simulates left right alike
  rcases kept with rfl | ⟨rfl, _⟩
  · exact ⟨same, held.forget⟩
  · exact ⟨same, held⟩

variable (given : Interpretation V S) (outer : V)

/-- Of two parts in order, the first holds the value unless it assigns the name, and then the second
has no hole. -/
theorem simulates_in_order {e : Expr} {es : List Expr}
    (ordered : x ∈ e.assigned → Expr.anyHasHole invocation es = false)
    (steady : SteadyAll invocation (.named x) es) (visible : ∀ y ∈ Expr.namesOf es, ¬ hidden y)
    (head : ∀ after, HeldAfter x value e.assigned after →
      Simulates hidden (some (x, value)) after
        ((e.fill invocation (.name x)).run invocation given outer) (e.run invocation given value))
    (tail : ∀ after, HeldAfter x value (Expr.assignedOf es) after →
      Simulates hidden (some (x, value)) after
        (Expr.runAll invocation given outer (Expr.fillAll invocation es (.name x)))
        (Expr.runAll invocation given value es))
    (kept : HeldAfter x value (e.assigned ++ Expr.assignedOf es) after) :
    ∃ middle,
      Simulates hidden (some (x, value)) middle
        ((e.fill invocation (.name x)).run invocation given outer)
        (e.run invocation given value) ∧
      Simulates hidden middle after
        (Expr.runAll invocation given outer (Expr.fillAll invocation es (.name x)))
        (Expr.runAll invocation given value es) := by
  by_cases assigned : x ∈ e.assigned
  · refine ⟨none, head none (.released x value _), ?_⟩
    rcases kept with rfl | ⟨_, absent⟩
    · have closed := ordered assigned
      rw [Expr.fillAll_of_not_anyHasHole _ closed,
        steady.runAll_eq given outer value (by simp) closed]
      exact (Respects.of_visible visible).runAll invocation given value
    · exact absurd (List.mem_append_left _ assigned) absent
  · exact ⟨some (x, value), head _ (.same value assigned),
      tail after (kept.mono (List.subset_append_right _ _))⟩

theorem HeldAfter.store {assigned : List String} {x? : Option String}
    (kept : HeldAfter x value (x?.toList ++ assigned) after) (result : V) :
    Simulates hidden after after (World.store x? result : StateM (World V S) PUnit)
      (World.store x? result) := by
  have respects : Respects hidden after [] (x?.toList ++ assigned) := kept.respects (by simp)
  exact respects.store result

mutual

/-- A tree with a name in its holes has the value of the tree in which the holes have the value of
the name. -/
theorem Steady.fill_simulates : ∀ {current : Current} {e : Expr} {after : Option (String × V)},
    Steady invocation current e → current = .named x → (∀ y ∈ e.names, ¬ hidden y) →
      HeldAfter x value e.assigned after →
      Simulates hidden (some (x, value)) after
        ((e.fill invocation (.name x)).run invocation given outer) (e.run invocation given value)
  | _, _, _, .name y, _, visible, kept => by
      rw [Expr.fill, Expr.run, Expr.run]
      exact kept.enter (.read (visible y (by simp [Expr.names])))
  | _, _, _, .hole, _, _, kept => by
      rw [Expr.fill, Expr.run, Expr.run]
      exact kept.leave (.read_held x value)
  | _, _, _, .raw payload, _, _, kept => by
      rw [Expr.fill, Expr.run, Expr.run]
      exact kept.enter (.act _)
  | _, _, _, .call plain vacant (.cons head ordered tail), inside, visible, kept => by
      have plainFilled := Expr.plain_fill plain fun hole same => vacant hole (same ▸ inside)
      have first := fun after (held : HeldAfter x value _ after) => head.fill_simulates inside
        (fun y member => visible y (List.mem_append_left _ member)) held
      have others := fun after (held : HeldAfter x value _ after) => tail.fill_simulates inside
        (fun y member => visible y (List.mem_append_right _ member)) held
      obtain ⟨middle, callee, args⟩ := simulates_in_order given outer (ordered x inside)
        (inside ▸ tail) (fun y member => visible y (List.mem_append_right _ member)) first others kept
      rw [Expr.fill_call plain, Expr.run_call given plainFilled, Expr.run_call given plain]
      exact callee.bind fun function => args.bind fun values => .act _
  | _, _, _, .assign settled bound, inside, visible, kept => by
      have within := bound.fill_simulates inside
        (fun y member => visible y (List.mem_append_right _ member))
        (kept.mono (List.subset_append_right _ _))
      rw [Expr.fill, Expr.run, Expr.run, (settled.fill inside).2]
      exact within.bind fun result => (kept.store result).bind fun _ => .pure _
  | _, _, _, .block lines, inside, visible, kept => by
      rw [Expr.fill, Expr.run, Expr.run]
      exact (lines.fill_simulates inside visible kept).bind fun values => .pure _
  | _, _, _, .marked tag inner, inside, visible, kept => by
      rw [Expr.fill, Expr.run, Expr.run]
      exact (inner.fill_simulates inside visible kept).bind fun result => .act _
  | _, _, _, .pipeline front read first _, inside, visible, kept => by
      have inFront := front (by simp [inside])
      have respects := (kept.respects visible).mono (List.subset_append_right _ _)
        (List.subset_append_right _ _)
      obtain ⟨seed, steps⟩ := respects.pipeline read
      have within := first.fill_simulates inside seed.visible
        ((kept.mono (List.subset_append_right _ _)).mono (Pipeline.assigned_ofArguments read).1)
      rw [Expr.fill_pipeline, Expr.run_accepted given (ofArguments_fillFirst x read inFront),
        Expr.run_accepted given read]
      exact within.bind fun result => runSteps_simulates invocation given steps result

theorem SteadyAll.fill_simulates :
    ∀ {current : Current} {es : List Expr} {after : Option (String × V)},
    SteadyAll invocation current es → current = .named x →
      (∀ y ∈ Expr.namesOf es, ¬ hidden y) → HeldAfter x value (Expr.assignedOf es) after →
      Simulates hidden (some (x, value)) after
        (Expr.runAll invocation given outer (Expr.fillAll invocation es (.name x)))
        (Expr.runAll invocation given value es)
  | _, _, _, .nil, _, _, kept => by
      rw [Expr.fillAll, Expr.runAll, Expr.runAll]
      exact kept.enter (.pure _)
  | _, _, _, .cons head ordered tail, inside, visible, kept => by
      have first := fun after (held : HeldAfter x value _ after) => head.fill_simulates inside
        (fun y member => visible y (List.mem_append_left _ member)) held
      have others := fun after (held : HeldAfter x value _ after) => tail.fill_simulates inside
        (fun y member => visible y (List.mem_append_right _ member)) held
      obtain ⟨middle, one, more⟩ := simulates_in_order given outer (ordered x inside)
        (inside ▸ tail) (fun y member => visible y (List.mem_append_right _ member)) first others kept
      rw [Expr.fillAll, Expr.runAll, Expr.runAll]
      exact one.bind fun result => more.bind fun results => .pure _

end

theorem Steady.closed_simulates {e : Expr} (steady : Steady invocation (.named x) e)
    (closed : e.hasHole invocation = false) (visible : ∀ y ∈ e.names, ¬ hidden y)
    (kept : HeldAfter x value e.assigned after) :
    Simulates hidden (some (x, value)) after (e.run invocation given outer)
      (e.run invocation given value) := by
  rw [steady.run_eq given outer value (by simp) closed]
  exact kept.enter ((kept.respects visible).run invocation given value)

theorem SteadyAll.closed_simulates {es : List Expr} (steady : SteadyAll invocation (.named x) es)
    (closed : Expr.anyHasHole invocation es = false) (visible : ∀ y ∈ Expr.namesOf es, ¬ hidden y)
    (kept : HeldAfter x value (Expr.assignedOf es) after) :
    Simulates hidden (some (x, value)) after (Expr.runAll invocation given outer es)
      (Expr.runAll invocation given value es) := by
  rw [steady.runAll_eq given outer value (by simp) closed]
  exact kept.enter ((kept.respects visible).runAll invocation given value)

/-- A receptive expression with a name as its first argument has the value that it has with the
value of the name there. -/
theorem Receptive.insert_simulates {e : Expr} (receptive : Receptive invocation (.named x) e)
    (closed : e.hasHole invocation = false) (visible : ∀ y ∈ e.names, ¬ hidden y)
    (kept : HeldAfter x value e.assigned after) :
    Simulates hidden (some (x, value)) after
      ((e.withFirstArgument (.name x)).run invocation given outer)
      (e.applyTo invocation given value) := by
  cases receptive with
  | assign settled bound =>
      simp only [Expr.hasHole, Bool.or_eq_false_iff] at closed
      have within := bound.insert_simulates closed.2
        (fun y member => visible y (List.mem_append_right _ member))
        (kept.mono (List.subset_append_right _ _))
      rw [Expr.withFirstArgument, Expr.run, Expr.applyTo]
      exact within.bind fun result => (kept.store result).bind fun _ => .pure _
  | pipeline read _ =>
      have respects := (kept.respects visible).mono (List.subset_append_right _ _)
        (List.subset_append_right _ _)
      rw [← Expr.namesOf_flatten, ← Expr.assignedOf_flatten] at respects
      have steps := respects.steps read
      rw [Expr.withFirstArgument, Expr.run_accepted given (ofArguments_name_cons x read),
        Expr.applyTo_accepted given read, Expr.run, ← pure_bind value (runSteps invocation given _)]
      exact (Simulates.read_held x value).bind fun result =>
        kept.enter (runSteps_simulates invocation given steps result)
  | call plain fixed parts =>
      simp only [Expr.hasHole, plain, if_false, Bool.or_eq_false_iff] at closed
      cases parts with
      | pipeline => exact absurd rfl plain
      | call _ _ parts =>
          cases parts with
          | cons head _ tail =>
              have function := head.closed_simulates given outer closed.1
                (fun y member => visible y (List.mem_append_left _ member))
                (.same value (fixed x rfl))
              have values := tail.closed_simulates given outer closed.2
                (fun y member => visible y (List.mem_append_right _ member))
                (kept.mono (List.subset_append_right _ _))
              rw [Expr.withFirstArgument, Expr.run_call given plain, Expr.applyTo_call given plain]
              simp only [Expr.runAll, Expr.run, bind_assoc, pure_bind]
              refine function.bind fun f => ?_
              rw [← pure_bind value fun first => Expr.runAll invocation given value _ >>=
                fun others => World.act (given.apply f (first :: others))]
              exact (Simulates.read_held x value).bind fun first => values.bind fun others => .act _
  | other unassigned uncalled fixed steady =>
      rw [Expr.withFirstArgument_other _ unassigned uncalled]
      by_cases named : e.name? = some invocation
      · cases Expr.name?_eq_some.mp named
        rw [Expr.run_accepted given (ofArguments_name_cons x rfl), Expr.applyTo_invocation, Expr.run]
        simp only [runSteps, bind_pure]
        exact kept.leave (.read_held x value)
      · have function := steady.closed_simulates given outer closed visible
          (.same value (fixed x rfl))
        rw [Expr.run_call given named, Expr.applyTo_other given unassigned uncalled named]
        simp only [Expr.runAll, Expr.run, bind_assoc, pure_bind]
        refine function.bind fun f => ?_
        rw [← pure_bind value fun first => World.act (given.apply f [first])]
        exact (kept.leave (.read_held x value)).bind fun first => .act _

/-- A steady step that receives the name of a value has the value that it has when it receives the
value. -/
theorem Step.value_simulates {step : Step} {e : Expr} {index : Nat}
    (read : Step.ofExpr index e = .ok step)
    (filled : step.expr.hasHole invocation = true → Steady invocation (.named x) step.expr)
    (inserted : step.expr.hasHole invocation = false → Receptive invocation (.named x) step.expr)
    (visible : ∀ y ∈ step.expr.names, ¬ hidden y)
    (kept : HeldAfter x value step.expr.assigned after) :
    Simulates hidden (some (x, value)) after
      ((step.value invocation x).run invocation given outer)
      (step.run invocation given value) := by
  rw [Step.run]
  by_cases broadcast : step.kind.isBroadcast = true
  · obtain ⟨f, named⟩ := Step.name_of_broadcast read broadcast
    rw [if_pos broadcast, Step.value, if_pos broadcast, named,
      Expr.run_call given (by simp [Expr.name?])]
    rw [named] at visible
    simp only [Expr.runAll, Expr.run, bind_assoc, pure_bind]
    refine (Simulates.read (visible f (by simp [Expr.names]))).bind fun function =>
      (Simulates.act _).bind fun each => ?_
    rw [← pure_bind value fun first => World.act (given.apply each [first])]
    exact (kept.leave (.read_held x value)).bind fun first => .act _
  rw [if_neg broadcast, Step.value, if_neg broadcast, Expr.feed]
  by_cases holes : step.expr.hasHole invocation = true
  · rw [if_pos holes, if_pos holes]
    exact (filled holes).fill_simulates given outer rfl visible kept
  · rw [if_neg holes, if_neg holes]
    rw [Bool.not_eq_true] at holes
    exact (inserted holes).insert_simulates given outer holes visible kept

end Pipelines
