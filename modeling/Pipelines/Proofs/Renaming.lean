import Pipelines.Proofs.Threaded

namespace Pipelines

variable {invocation : String} {new : String → String}

/-- A renaming under which just one of some names is the name of pipelines. -/
def KeepsApart (new : String → String) (invocation : String) (names : List String) : Prop :=
  ∀ x ∈ names, new x = invocation ↔ x = invocation

theorem keepsApart_append {names others : List String} :
    KeepsApart new invocation (names ++ others) ↔
      KeepsApart new invocation names ∧ KeepsApart new invocation others :=
  List.forall_mem_append

theorem KeepsApart.subset {names others : List String} (apart : KeepsApart new invocation names)
    (within : others ⊆ names) : KeepsApart new invocation others :=
  fun x member => apart x (within member)

namespace Expr

mutual

/-- The tree with other names. -/
def rename (new : String → String) : Expr → Expr
  | .name x => .name (new x)
  | .call callee args => .call (callee.rename new) (renameAll new args)
  | .assign target value => .assign (target.rename new) (value.rename new)
  | .block lines => .block (renameAll new lines)
  | .marked tag inner => .marked tag (inner.rename new)
  | .hole => .hole
  | .raw payload => .raw payload

def renameAll (new : String → String) : List Expr → List Expr
  | [] => []
  | e :: es => e.rename new :: renameAll new es

end

theorem renameAll_eq_map (es : List Expr) : renameAll new es = es.map (rename new) := by
  induction es with
  | nil => rfl
  | cons e es ih => simp [renameAll, ih]

mutual

theorem rename_eq_self {e : Expr} (kept : ∀ x ∈ e.names, new x = x) : e.rename new = e := by
  cases e with
  | name x => rw [rename, kept x (by simp [names])]
  | call callee args =>
      simp only [names, List.forall_mem_append] at kept
      rw [rename, rename_eq_self kept.1, renameAll_eq_self kept.2]
  | assign target value =>
      simp only [names, List.forall_mem_append] at kept
      rw [rename, rename_eq_self kept.1, rename_eq_self kept.2]
  | block lines => rw [rename, renameAll_eq_self kept]
  | marked tag inner => exact congrArg (marked tag) (rename_eq_self (e := inner) kept)
  | _ => rfl

theorem renameAll_eq_self {es : List Expr} (kept : ∀ x ∈ namesOf es, new x = x) :
    renameAll new es = es := by
  cases es with
  | nil => rfl
  | cons e es =>
      simp only [namesOf, List.forall_mem_append] at kept
      rw [renameAll, rename_eq_self kept.1, renameAll_eq_self kept.2]

end

theorem name?_rename_eq_invocation {e : Expr} (apart : KeepsApart new invocation e.names) :
    (e.rename new).name? = some invocation ↔ e.name? = some invocation := by
  cases e with
  | name x => simpa [rename, name?] using apart x (by simp [names])
  | _ => simp [rename, name?]

mutual

theorem hasHole_rename {e : Expr} (apart : KeepsApart new invocation e.names) :
    (e.rename new).hasHole invocation = e.hasHole invocation := by
  cases e with
  | call callee args =>
      obtain ⟨inCallee, inArgs⟩ := keepsApart_append.mp apart
      simp only [rename, hasHole, name?_rename_eq_invocation inCallee, hasHole_rename inCallee,
        firstHasHole_renameAll inArgs, anyHasHole_renameAll inArgs]
  | assign target value =>
      obtain ⟨inTarget, inValue⟩ := keepsApart_append.mp apart
      simp only [rename, hasHole, hasHole_rename inTarget, hasHole_rename inValue]
  | block lines => exact anyHasHole_renameAll apart
  | marked tag inner => exact hasHole_rename (e := inner) apart
  | _ => rfl

theorem firstHasHole_renameAll {es : List Expr} (apart : KeepsApart new invocation (namesOf es)) :
    firstHasHole invocation (renameAll new es) = firstHasHole invocation es := by
  cases es with
  | nil => rfl
  | cons e es => exact hasHole_rename (keepsApart_append.mp apart).1

theorem anyHasHole_renameAll {es : List Expr} (apart : KeepsApart new invocation (namesOf es)) :
    anyHasHole invocation (renameAll new es) = anyHasHole invocation es := by
  cases es with
  | nil => rfl
  | cons e es =>
      obtain ⟨first, others⟩ := keepsApart_append.mp apart
      simp only [renameAll, anyHasHole, hasHole_rename first, anyHasHole_renameAll others]

end

mutual

theorem rename_fill {e : Expr} (value : Expr) (apart : KeepsApart new invocation e.names) :
    (e.fill invocation value).rename new = (e.rename new).fill invocation (value.rename new) := by
  cases e with
  | call callee args =>
      obtain ⟨inCallee, inArgs⟩ := keepsApart_append.mp apart
      rw [rename, fill, fill]
      simp only [name?_rename_eq_invocation inCallee]
      split
      · rw [rename, renameAll_fillFirst value inArgs]
      · rw [rename, rename_fill value inCallee, renameAll_fillAll value inArgs]
  | assign target bound =>
      obtain ⟨inTarget, inValue⟩ := keepsApart_append.mp apart
      simp only [fill, rename, rename_fill value inTarget, rename_fill value inValue]
  | block lines => simp only [fill, rename, renameAll_fillAll value apart]
  | marked tag inner => simp only [fill, rename, rename_fill (e := inner) value apart]
  | _ => rfl

theorem renameAll_fillFirst {es : List Expr} (value : Expr)
    (apart : KeepsApart new invocation (namesOf es)) :
    renameAll new (fillFirst invocation es value) =
      fillFirst invocation (renameAll new es) (value.rename new) := by
  cases es with
  | nil => rfl
  | cons e es =>
      simp only [fillFirst, renameAll, rename_fill value (keepsApart_append.mp apart).1]

theorem renameAll_fillAll {es : List Expr} (value : Expr)
    (apart : KeepsApart new invocation (namesOf es)) :
    renameAll new (fillAll invocation es value) =
      fillAll invocation (renameAll new es) (value.rename new) := by
  cases es with
  | nil => rfl
  | cons e es =>
      obtain ⟨first, others⟩ := keepsApart_append.mp apart
      simp only [fillAll, renameAll, rename_fill value first, renameAll_fillAll value others]

end

theorem rename_withFirstArgument (e value : Expr) :
    (e.withFirstArgument value).rename new =
      (e.rename new).withFirstArgument (value.rename new) := by
  cases e with
  | assign target bound =>
      simp only [withFirstArgument, rename, rename_withFirstArgument bound value]
  | _ => rfl

theorem rename_feed {e : Expr} (value : Expr) (apart : KeepsApart new invocation e.names) :
    (e.feed invocation value).rename new = (e.rename new).feed invocation (value.rename new) := by
  rw [feed, feed, hasHole_rename apart]
  split
  · exact rename_fill value apart
  · exact rename_withFirstArgument e value

mutual

theorem splice_rename (e : Expr) : (e.rename new).splice = renameAll new e.splice := by
  cases e with
  | block lines => exact flatten_renameAll lines
  | _ => rfl

theorem flatten_renameAll (es : List Expr) :
    flatten (renameAll new es) = renameAll new (flatten es) := by
  cases es with
  | nil => rfl
  | cons e es =>
      rw [renameAll, flatten, flatten, splice_rename e, flatten_renameAll es, renameAll_eq_map,
        renameAll_eq_map, renameAll_eq_map, List.map_append]

end

end Expr

/-- Outcomes that both succeed, with related results, or break the same rule at the same step. -/
inductive SameOutcome (R : α → β → Prop) : Except Error α → Except Error β → Prop where
  | ok (related : R a b) : SameOutcome R (.ok a) (.ok b)
  | error {cause cause' : Error} (rule : cause.rule = cause'.rule)
      (step : cause.step? = cause'.step?) : SameOutcome R (.error cause) (.error cause')

theorem SameOutcome.bind {R : α → β → Prop} {S : γ → δ → Prop} {first : Except Error α}
    {first' : Except Error β} {next : α → Except Error γ} {next' : β → Except Error δ}
    (same : SameOutcome R first first')
    (follow : ∀ a b, first = .ok a → R a b → SameOutcome S (next a) (next' b)) :
    SameOutcome S (first >>= next) (first' >>= next') := by
  cases same with
  | ok related => exact follow _ _ rfl related
  | error rule step => exact .error rule step

theorem SameOutcome.bind_right {R : α → β → Prop} {S : α → γ → Prop} {first : Except Error α}
    {first' : Except Error β} {next : β → Except Error γ} (same : SameOutcome R first first')
    (follow : ∀ a b, R a b → SameOutcome S (.ok a) (next b)) :
    SameOutcome S first (first' >>= next) := by
  cases same with
  | ok related => exact follow _ _ related
  | error rule step => exact .error rule step

theorem SameOutcome.ok_or_error {R : α → β → Prop} {first : Except Error α}
    {first' : Except Error β} (same : SameOutcome R first first') :
    (∃ a b, first = .ok a ∧ first' = .ok b ∧ R a b) ∨
      ∃ cause cause', first = .error cause ∧ first' = .error cause' ∧
        cause.rule = cause'.rule ∧ cause.step? = cause'.step? := by
  cases same with
  | ok related => exact .inl ⟨_, _, rfl, rfl, related⟩
  | error rule step => exact .inr ⟨_, _, rfl, rfl, rule, step⟩

def Step.rename (new : String → String) (step : Step) : Step :=
  { step with binding := step.binding.map new, expr := step.expr.rename new }

theorem Step.broadcastFunction_rename (index : Nat) (inner : Expr) :
    SameOutcome (fun function function' => function' = function.rename new)
      (broadcastFunction index inner) (broadcastFunction index (inner.rename new)) := by
  cases inner with
  | name f => exact .ok rfl
  | _ => exact .error rfl rfl

theorem Step.ofExpr_rename (index : Nat) (e : Expr) :
    SameOutcome (fun step step' => step' = step.rename new) (Step.ofExpr index e)
      (Step.ofExpr index (e.rename new)) := by
  cases e with
  | marked tag inner =>
      cases tag with
      | aside => exact .ok rfl
      | broadcast =>
          refine (Step.broadcastFunction_rename index inner).bind ?_
          rintro function _ _ rfl
          exact .ok rfl
  | assign target value =>
      cases target with
      | name y =>
          cases value with
          | marked tag inner =>
              cases tag with
              | aside => exact .ok rfl
              | broadcast =>
                  refine (Step.broadcastFunction_rename index inner).bind ?_
                  rintro function _ _ rfl
                  exact .ok rfl
          | _ => exact .ok rfl
      | _ => exact .error rfl rfl
  | _ => exact .ok rfl

theorem Step.ofExprs_rename (index : Nat) (es : List Expr) :
    SameOutcome (fun steps steps' => steps' = steps.map (Step.rename new)) (Step.ofExprs index es)
      (Step.ofExprs index (Expr.renameAll new es)) := by
  induction es generalizing index with
  | nil => exact .ok rfl
  | cons e es ih =>
      refine (Step.ofExpr_rename index e).bind ?_
      rintro step _ _ rfl
      refine (ih (index + 1)).bind ?_
      rintro steps _ _ rfl
      exact .ok rfl

def Pipeline.rename (new : String → String) (pipeline : Pipeline) : Pipeline :=
  ⟨pipeline.seed.rename new, pipeline.steps.map (Step.rename new)⟩

theorem Pipeline.ofArguments_rename (args : List Expr) :
    SameOutcome (fun pipeline pipeline' => pipeline' = pipeline.rename new)
      (Pipeline.ofArguments args) (Pipeline.ofArguments (Expr.renameAll new args)) := by
  rw [ofArguments, ofArguments, Expr.flatten_renameAll]
  cases Expr.flatten args with
  | nil => exact .error rfl rfl
  | cons seed rest =>
      refine (Step.ofExprs_rename 1 rest).bind ?_
      rintro steps _ _ rfl
      exact .ok rfl

def Binding.rename (new : String → String) : Binding → Binding
  | .temp x => .temp (new x)
  | .user y => .user (new y)
  | .discard => .discard

def Statement.rename (new : String → String) (statement : Statement) : Statement :=
  ⟨statement.binding.rename new, statement.value.rename new⟩

def Threaded.rename (new : String → String) (threaded : Threaded) : Threaded :=
  ⟨threaded.statements.map (Statement.rename new), threaded.final.rename new⟩

theorem Statement.toExpr_rename (statement : Statement) :
    (statement.rename new).toExpr = statement.toExpr.rename new := by
  obtain ⟨binding, value⟩ := statement
  cases binding <;> rfl

theorem Threaded.toExpr_rename (threaded : Threaded) :
    (threaded.rename new).toExpr = threaded.toExpr.rename new := by
  obtain ⟨statements, final⟩ := threaded
  cases statements with
  | nil => rfl
  | cons statement statements =>
      simp [rename, toExpr, Expr.rename, Expr.renameAll_eq_map, Statement.toExpr_rename]

end Pipelines
