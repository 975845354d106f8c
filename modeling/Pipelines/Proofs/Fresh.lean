import Pipelines.Proofs.Expands
import Pipelines.Proofs.Filling
import Pipelines.Proofs.Threaded

namespace Pipelines

namespace Supply

theorem nameAt_inj {stem : String} {a b : Nat} : nameAt stem a = nameAt stem b ↔ a = b := by
  constructor
  · intro same
    have digits := congrArg String.toList ((String.append_right_inj stem).mp same)
    rw [Nat.toString_eq_repr, Nat.toString_eq_repr, Nat.toList_repr, Nat.toList_repr] at digits
    have values := congrArg (Nat.ofDigitChars 10 · 0) digits
    simpa [Nat.ofDigitChars_toDigits] using values
  · intro same
    subst same
    rfl

theorem firstFree_spec (stem : String) (start : Nat) (taken : List String) :
    start ≤ firstFree stem start taken ∧ nameAt stem (firstFree stem start taken) ∉ taken := by
  induction start, taken using firstFree.induct stem with
  | case1 start taken occupied ih =>
      rw [firstFree, if_pos occupied]
      refine ⟨Nat.le_of_succ_le ih.1, fun member => ih.2 ?_⟩
      have other : nameAt stem (firstFree stem (start + 1) (taken.erase (nameAt stem start))) ≠
          nameAt stem start := by
        intro same
        have reached := nameAt_inj.mp same
        omega
      exact (List.mem_erase_of_ne other).mpr member
  | case2 start taken free =>
      rw [firstFree, if_neg free]
      exact ⟨Nat.le_refl start, free⟩

theorem firstFree_least {stem : String} {start counter : Nat} {taken : List String}
    (reached : start ≤ counter) (before : counter < firstFree stem start taken) :
    nameAt stem counter ∈ taken := by
  induction start, taken using firstFree.induct stem with
  | case1 start taken occupied ih =>
      rw [firstFree, if_pos occupied] at before
      rcases Nat.eq_or_lt_of_le reached with rfl | beyond
      · exact occupied
      · exact List.mem_of_mem_erase (ih beyond before)
  | case2 start taken free =>
      rw [firstFree, if_neg free] at before
      omega

theorem firstFree_eq_iff {stem : String} {start counter : Nat} {taken : List String} :
    firstFree stem start taken = counter ↔ start ≤ counter ∧ nameAt stem counter ∉ taken ∧
      ∀ earlier, start ≤ earlier → earlier < counter → nameAt stem earlier ∈ taken := by
  obtain ⟨reached, free⟩ := firstFree_spec stem start taken
  constructor
  · rintro rfl
    exact ⟨reached, free, fun _ => firstFree_least⟩
  · rintro ⟨behind, unused, occupied⟩
    rcases Nat.lt_trichotomy (firstFree stem start taken) counter with before | same | after
    · exact absurd (occupied _ reached before) free
    · exact same
    · exact absurd (firstFree_least behind after) unused

/-- The search depends only on which of the names that it can come to are taken. -/
theorem firstFree_congr {stem : String} {start : Nat} {taken others : List String}
    (same : ∀ counter, start ≤ counter →
      (nameAt stem counter ∈ others ↔ nameAt stem counter ∈ taken)) :
    firstFree stem start others = firstFree stem start taken := by
  obtain ⟨reached, free⟩ := firstFree_spec stem start taken
  rw [firstFree_eq_iff, same _ reached]
  exact ⟨reached, free, fun earlier behind before =>
    (same earlier behind).mpr (firstFree_least behind before)⟩

/-- A name that a supply can still draw. -/
def Ahead (supply : Supply) (x : String) : Prop :=
  ∃ counter, supply.used < counter ∧ x = nameAt supply.stem counter ∧ x ∉ supply.taken

/-- What is left of a supply after some draws. -/
structure Later (supply rest : Supply) : Prop where
  stem : rest.stem = supply.stem
  taken : rest.taken = supply.taken
  used : supply.used ≤ rest.used

variable {supply middle rest : Supply}

theorem Later.refl (supply : Supply) : Later supply supply :=
  ⟨rfl, rfl, Nat.le_refl _⟩

theorem Later.trans (first : Later supply middle) (second : Later middle rest) :
    Later supply rest :=
  ⟨second.stem.trans first.stem, second.taken.trans first.taken,
    Nat.le_trans first.used second.used⟩

theorem Later.ahead {x : String} (later : Later supply rest) (ahead : rest.Ahead x) :
    supply.Ahead x := by
  obtain ⟨counter, beyond, named, free⟩ := ahead
  exact ⟨counter, Nat.lt_of_le_of_lt later.used beyond, later.stem ▸ named, later.taken ▸ free⟩

theorem not_ahead_of_mem {stem x : String} {roots : List Expr} (written : x ∈ Expr.namesOf roots) :
    ¬ (ofRoots stem roots).Ahead x := by
  intro ahead
  obtain ⟨_, _, _, free⟩ := ahead
  exact free written

theorem not_ahead_of_mem_names {stem x : String} {e : Expr} (written : x ∈ e.names) :
    ¬ (ofRoots stem [e]).Ahead x :=
  not_ahead_of_mem (by simpa [Expr.namesOf] using written)

/-- A name that has been drawn between two supplies. -/
def Drawn (supply rest : Supply) (x : String) : Prop :=
  supply.Ahead x ∧ ¬ rest.Ahead x

theorem Drawn.extend {x : String} (drawn : Drawn supply middle x) (later : Later middle rest) :
    Drawn supply rest x :=
  ⟨drawn.1, fun ahead => drawn.2 (later.ahead ahead)⟩

theorem Drawn.before {x : String} (later : Later supply middle) (drawn : Drawn middle rest x) :
    Drawn supply rest x :=
  ⟨later.ahead drawn.1, drawn.2⟩

theorem next_later (supply : Supply) : Later supply supply.next.2 :=
  ⟨rfl, rfl, Nat.le_of_succ_le (firstFree_spec supply.stem (supply.used + 1) supply.taken).1⟩

theorem next_drawn (supply : Supply) : Drawn supply supply.next.2 supply.next.1 := by
  obtain ⟨beyond, free⟩ := firstFree_spec supply.stem (supply.used + 1) supply.taken
  refine ⟨⟨_, beyond, rfl, free⟩, ?_⟩
  intro ahead
  obtain ⟨counter, further, same, _⟩ := ahead
  have equal : firstFree supply.stem (supply.used + 1) supply.taken = counter := nameAt_inj.mp same
  simp only [next] at further
  omega

theorem Drawn.eq_next {x : String} (drawn : Drawn supply supply.next.2 x) : x = supply.next.1 := by
  obtain ⟨⟨counter, beyond, rfl, free⟩, behind⟩ := drawn
  have reached : counter = firstFree supply.stem (supply.used + 1) supply.taken := by
    rcases Nat.lt_trichotomy counter (firstFree supply.stem (supply.used + 1) supply.taken) with
      before | same | after
    · exact absurd (firstFree_least beyond before) free
    · exact same
    · exact absurd ⟨counter, after, rfl, free⟩ behind
  rw [reached]
  rfl

theorem drawn_of_eq_next {x : String} (next : (x, rest) = supply.next) : Drawn supply rest x := by
  have fresh := supply.next_drawn
  rwa [← next] at fresh

/-- The author's name is used as it is, and otherwise a name is drawn. -/
theorem choose_cases (supply : Supply) (binding : Option String) :
    Later supply (supply.choose binding).2.2 ∧
      ((∃ y, binding = some y ∧ supply.choose binding = (.user y, y, supply)) ∨
        (binding = none ∧ (supply.choose binding).1 = .temp (supply.choose binding).2.1 ∧
          Drawn supply (supply.choose binding).2.2 (supply.choose binding).2.1)) := by
  cases binding with
  | none => exact ⟨supply.next_later, .inr ⟨rfl, rfl, supply.next_drawn⟩⟩
  | some y => exact ⟨.refl supply, .inl ⟨y, rfl, rfl⟩⟩

end Supply

namespace Expr

mutual

theorem names_fill (invocation : String) (value e : Expr) :
    (e.fill invocation value).names ⊆ e.names ++ value.names := by
  cases e with
  | call callee args =>
      by_cases pipeline : callee.name? = some invocation
      · have others := namesOf_fillFirst invocation value args
        simp only [fill, pipeline, if_true, names]
        grind
      · have head := names_fill invocation value callee
        have others := namesOf_fillAll invocation value args
        simp only [fill, pipeline, if_false, names]
        grind
  | assign target bound =>
      have first := names_fill invocation value target
      have second := names_fill invocation value bound
      simp only [fill, names]
      grind
  | block lines => simpa only [fill, names] using namesOf_fillAll invocation value lines
  | marked tag inner => simpa only [fill, names] using names_fill invocation value inner
  | hole => simp [fill, names]
  | name x => simp [fill, names]
  | raw payload => simp [fill, names]

theorem namesOf_fillFirst (invocation : String) (value : Expr) (es : List Expr) :
    namesOf (fillFirst invocation es value) ⊆ namesOf es ++ value.names := by
  cases es with
  | nil => simp [fillFirst, namesOf]
  | cons e es =>
      have head := names_fill invocation value e
      simp only [fillFirst, namesOf]
      grind

theorem namesOf_fillAll (invocation : String) (value : Expr) (es : List Expr) :
    namesOf (fillAll invocation es value) ⊆ namesOf es ++ value.names := by
  cases es with
  | nil => simp [fillAll, namesOf]
  | cons e es =>
      have head := names_fill invocation value e
      have others := namesOf_fillAll invocation value es
      simp only [fillAll, namesOf]
      grind

end

theorem names_withFirstArgument (value e : Expr) :
    (e.withFirstArgument value).names ⊆ e.names ++ value.names := by
  cases e with
  | assign target bound =>
      have inner := names_withFirstArgument value bound
      simp only [withFirstArgument, names]
      grind
  | _ =>
      simp only [withFirstArgument, names, namesOf]
      grind

theorem names_feed (invocation : String) (value e : Expr) :
    (e.feed invocation value).names ⊆ e.names ++ value.names := by
  unfold feed
  split
  · exact names_fill invocation value e
  · exact names_withFirstArgument value e

theorem namesOf_flatten (es : List Expr) : namesOf (flatten es) = namesOf es := by
  rw [namesOf_eq_flatMap, namesOf_eq_flatMap]
  exact flatMap_flatten namesOf_eq_flatMap es

end Expr

theorem Step.names_body (step : Step) : step.body.names = step.expr.names := by
  unfold Step.body
  split <;> rfl

theorem Step.names_ofExpr {index : Nat} {e : Expr} {step : Step}
    (read : Step.ofExpr index e = .ok step) :
    step.expr.names ⊆ e.names ∧ ∀ y, step.binding = some y → y ∈ e.names := by
  rcases Step.ofExpr_cases read with ⟨_, unbound, rfl⟩ | ⟨_, unbound, rfl⟩ | ⟨_, y, bound, rfl⟩
  · simp [unbound, Expr.names]
  · simp [unbound, Step.names_body]
  · simp [bound, Expr.names, Step.names_body]

theorem Step.names_ofExprs {index : Nat} {es : List Expr} {steps : List Step}
    (read : Step.ofExprs index es = .ok steps) :
    ∀ step ∈ steps, step.expr.names ⊆ Expr.namesOf es ∧
      ∀ y, step.binding = some y → y ∈ Expr.namesOf es := by
  intro step member
  obtain ⟨e, among, _, found⟩ := Step.mem_ofExprs read member
  have written : e.names ⊆ Expr.namesOf es := by
    intro x inside
    rw [Expr.namesOf_eq_flatMap]
    exact List.mem_flatMap.mpr ⟨e, among, inside⟩
  obtain ⟨inExpr, inBinding⟩ := Step.names_ofExpr found
  exact ⟨List.Subset.trans inExpr written, fun y bound => written (inBinding y bound)⟩

/-- The names of a pipeline are written in its arguments. -/
theorem Pipeline.names_ofArguments {args : List Expr} {pipeline : Pipeline}
    (read : Pipeline.ofArguments args = .ok pipeline) :
    pipeline.seed.names ⊆ Expr.namesOf args ∧
      ∀ step ∈ pipeline.steps, step.expr.names ⊆ Expr.namesOf args ∧
        ∀ y, step.binding = some y → y ∈ Expr.namesOf args := by
  obtain ⟨es, split, follow⟩ := Pipeline.ofArguments_eq_ok.mp read
  rw [← Expr.namesOf_flatten, split, Expr.namesOf]
  refine ⟨List.subset_append_left _ _, fun step member => ?_⟩
  obtain ⟨inExpr, inBinding⟩ := Step.names_ofExprs follow step member
  exact ⟨List.subset_append_of_subset_right _ inExpr,
    fun y bound => List.mem_append_right _ (inBinding y bound)⟩

theorem Step.names_value (invocation : String) (step : Step) (current : String) :
    (step.value invocation current).names ⊆ step.expr.names ++ [current] := by
  unfold Step.value
  by_cases broadcast : step.kind.isBroadcast = true
  · simp [broadcast, Expr.names, Expr.namesOf]
  · rw [if_neg broadcast]
    exact Expr.names_feed invocation (.name current) step.expr

section

open Supply (Later Drawn)

variable {invocation : String} {supply middle rest : Supply}

/-- An aside is discarded and leaves the name as it is. The value of any other step is kept under
the author's name, or else under one that is drawn. -/
theorem Step.thread_cases {step : Step} {current name : String} {statement : Statement}
    (threaded : step.thread invocation current supply = (statement, name, rest)) :
    statement.value = step.value invocation current ∧ Later supply rest ∧
    ((step.kind = .aside ∧ statement.binding = .discard ∧ name = current) ∨
      (step.kind ≠ .aside ∧ step.binding = some name ∧ statement.binding = .user name) ∨
      (step.kind ≠ .aside ∧ step.binding = none ∧ statement.binding = .temp name ∧
        Drawn supply rest name)) := by
  by_cases aside : step.kind = .aside
  · rw [Step.thread_aside aside] at threaded
    cases threaded
    exact ⟨rfl, .refl _, .inl ⟨aside, rfl, rfl⟩⟩
  · rw [Step.thread_bound aside] at threaded
    obtain ⟨later, ⟨y, bound, chosen⟩ | ⟨unbound, temp, drawn⟩⟩ := supply.choose_cases step.binding
    · rw [chosen] at threaded
      cases threaded
      exact ⟨rfl, .refl _, .inr (.inl ⟨aside, bound, rfl⟩)⟩
    · cases threaded
      exact ⟨rfl, later, .inr (.inr ⟨aside, unbound, temp, drawn⟩)⟩

theorem Step.thread_later (step : Step) (current : String) (supply : Supply) :
    Later supply (step.thread invocation current supply).2.2 :=
  (Step.thread_cases rfl).2.1

theorem threadSteps_later (invocation : String) (steps : List Step) (current : String) (supply : Supply) :
    Later supply (threadSteps invocation steps current supply).2.2 := by
  induction steps generalizing current supply with
  | nil => exact .refl supply
  | cons step steps ih =>
      exact (step.thread_later current supply).trans (ih _ _)

theorem nameSeed_later {seed : Expr} {start : List Statement} {current : String}
    (named : nameSeed seed supply = .ok (start, current, rest)) : Later supply rest := by
  rcases nameSeed_cases named with ⟨_, _, rfl⟩ | ⟨_, _, _, rfl⟩ | ⟨_, _, _, drawn⟩
  · exact .refl _
  · exact .refl _
  · rw [(Prod.mk.inj drawn).2]
    exact supply.next_later

theorem threadArguments_later {args : List Expr} {pipeline : Pipeline} {threaded : Threaded}
    (accepted : threadArguments invocation args supply = .ok (pipeline, threaded, rest)) :
    Later supply rest := by
  obtain ⟨_, done⟩ := threadArguments_eq_ok.mp accepted
  by_cases none : pipeline.steps = []
  · rw [none, thread_nil] at done
    cases done
    exact .refl _
  · obtain ⟨_, current, middle, named, _, _, rfl⟩ := (thread_eq_ok none).mp done
    exact (nameSeed_later named).trans (threadSteps_later _ pipeline.steps current middle)

theorem InTurn.later {R : Expr → Supply → Expr → Supply → Prop} {es es' : List Expr}
    (run : InTurn R es supply es' rest)
    (step : ∀ e before e' after, R e before e' after → Later before after) : Later supply rest := by
  induction run with
  | nil => exact .refl _
  | cons head _ ih => exact (step _ _ _ _ head).trans ih

theorem Expands.later {e expanded : Expr} (run : Expands invocation e supply expanded rest) :
    Later supply rest := by
  induction run using Expands.induction with
  | name | hole | raw => exact .refl _
  | call _ _ _ first others =>
      exact first.trans (others.later fun _ _ _ _ known => known.elim fun _ later => later)
  | assign _ _ first second => exact first.trans second
  | block _ others => exact others.later fun _ _ _ _ known => known.elim fun _ later => later
  | marked _ _ later => exact later
  | pipeline accepted _ later => exact (threadArguments_later accepted).trans later

theorem Statement.names_toExpr_subset (statement : Statement) :
    statement.toExpr.names ⊆ statement.binding.name?.toList ++ statement.value.names := by
  unfold Statement.toExpr
  split <;> simp_all [Expr.names]

/-- A threaded step has the names of the step, the name that it receives and one that it may draw. -/
theorem Step.thread_names (P : String → Prop) {step : Step} {current name : String}
    {statement : Statement} (threaded : step.thread invocation current supply = (statement, name, rest))
    (start : P current) (inExpr : ∀ x ∈ step.expr.names, P x)
    (inBinding : ∀ y, step.binding = some y → P y) (drawn : ∀ x, Drawn supply rest x → P x) :
    P name ∧ ∀ x ∈ statement.toExpr.names, P x := by
  obtain ⟨value, _, cases⟩ := Step.thread_cases threaded
  have inValue : ∀ x ∈ statement.value.names, P x := by
    intro x member
    rw [value] at member
    rcases List.mem_append.mp (step.names_value invocation current member) with inside | here
    · exact inExpr x inside
    · exact List.mem_singleton.mp here ▸ start
  have following : P name ∧ ∀ x ∈ statement.binding.name?.toList, P x := by
    rcases cases with ⟨_, discard, rfl⟩ | ⟨_, bound, user⟩ | ⟨_, _, temp, fresh⟩
    · simp [discard, Binding.name?, start]
    · simp [user, Binding.name?, inBinding name bound]
    · simp [temp, Binding.name?, drawn name fresh]
  refine ⟨following.1, fun x member => ?_⟩
  rcases List.mem_append.mp (statement.names_toExpr_subset member) with bound | inside
  · exact following.2 x bound
  · exact inValue x inside

/-- The names of threaded steps are written in the steps, or are the name of the value that the
steps receive, or have been drawn. -/
theorem threadSteps_names (P : String → Prop) {steps : List Step} {current : String}
    (start : P current) (written : ∀ step ∈ steps, (∀ x ∈ step.expr.names, P x) ∧
      ∀ y, step.binding = some y → P y)
    (drawn : ∀ x, Drawn supply (threadSteps invocation steps current supply).2.2 x → P x) :
    P (threadSteps invocation steps current supply).2.1 ∧
      ∀ statement ∈ (threadSteps invocation steps current supply).1,
        ∀ x ∈ statement.toExpr.names, P x := by
  induction steps generalizing current supply with
  | nil => exact ⟨start, by simp [threadSteps]⟩
  | cons step others ih =>
      obtain ⟨inExpr, inBinding⟩ := written step (by simp)
      rcases threaded : step.thread invocation current supply with ⟨statement, name, after⟩
      obtain ⟨_, later, _⟩ := Step.thread_cases threaded
      simp only [threadSteps, threaded] at drawn ⊢
      obtain ⟨following, inLine⟩ := Step.thread_names P threaded start inExpr inBinding
        fun x fresh => drawn x (fresh.extend (threadSteps_later invocation others name after))
      obtain ⟨last, stepped⟩ := ih following (fun other member => written other (by simp [member]))
        fun x fresh => drawn x (fresh.before later)
      exact ⟨last, List.forall_mem_cons.mpr ⟨inLine, stepped⟩⟩

theorem nameSeed_names {seed : Expr} {start : List Statement} {current : String}
    (named : nameSeed seed supply = .ok (start, current, rest)) :
    (current ∈ seed.names ∨ Drawn supply rest current) ∧
      ∀ statement ∈ start, ∀ x ∈ statement.toExpr.names,
        x ∈ seed.names ∨ Drawn supply rest x := by
  rcases nameSeed_cases named with ⟨rfl, rfl, _⟩ | ⟨value, rfl, rfl, _⟩ | ⟨_, _, rfl, next⟩
  · simp [Expr.names]
  · refine ⟨.inl (by simp [Expr.names]), fun statement member x inside => .inl ?_⟩
    cases List.mem_singleton.mp member
    exact inside
  · have drawn := Supply.drawn_of_eq_next next
    refine ⟨.inr drawn, fun statement member x inside => ?_⟩
    cases List.mem_singleton.mp member
    rcases List.mem_append.mp inside with here | written
    · exact .inr (List.mem_singleton.mp here ▸ drawn)
    · exact .inl written

theorem Threaded.names_toExpr {threaded : Threaded} {x : String}
    (member : x ∈ threaded.toExpr.names) :
    (∃ statement ∈ threaded.statements, x ∈ statement.toExpr.names) ∨
      x ∈ threaded.final.names := by
  unfold Threaded.toExpr at member
  split at member
  · exact .inr member
  · simp only [Expr.names, Expr.namesOf_eq_flatMap, List.flatMap_append, List.mem_append,
      List.flatMap_singleton, List.flatMap_map, List.mem_flatMap] at member
    exact member

/-- The names of a threaded pipeline are written in its arguments or have been drawn. -/
theorem threadArguments_names {args : List Expr} {pipeline : Pipeline} {threaded : Threaded}
    (accepted : threadArguments invocation args supply = .ok (pipeline, threaded, rest)) :
    ∀ x ∈ threaded.toExpr.names, x ∈ Expr.namesOf args ∨ Drawn supply rest x := by
  obtain ⟨read, done⟩ := threadArguments_eq_ok.mp accepted
  obtain ⟨inSeed, inSteps⟩ := Pipeline.names_ofArguments read
  by_cases none : pipeline.steps = []
  · rw [none, thread_nil] at done
    cases done
    exact fun x member => .inl (inSeed member)
  obtain ⟨start, current, middle, named, statements, final, rfl⟩ := (thread_eq_ok none).mp done
  have seedLater := nameSeed_later named
  have stepsLater := threadSteps_later invocation pipeline.steps current middle
  obtain ⟨first, seeded⟩ := nameSeed_names named
  have ofSeed : ∀ x, x ∈ pipeline.seed.names ∨ Drawn supply middle x → x ∈ Expr.namesOf args ∨
      Drawn supply (threadSteps invocation pipeline.steps current middle).2.2 x := by
    intro x known
    rcases known with written | drawn
    · exact .inl (inSeed written)
    · exact .inr (drawn.extend stepsLater)
  obtain ⟨last, stepped⟩ := threadSteps_names _ (ofSeed current first)
    (fun step member => by
      obtain ⟨inExpr, inBinding⟩ := inSteps step member
      exact ⟨fun x inside => .inl (inExpr inside), fun y bound => .inl (inBinding y bound)⟩)
    fun x drawn => Or.inr (drawn.before seedLater)
  intro x member
  rcases Threaded.names_toExpr member with ⟨statement, among, inside⟩ | atEnd
  · rw [statements] at among
    rcases List.mem_append.mp among with atStart | behind
    · exact ofSeed x (seeded statement atStart x inside)
    · exact stepped statement behind x inside
  · rw [final] at atEnd
    exact List.mem_singleton.mp atEnd ▸ last

end

end Pipelines
