import Pipelines.Proofs.Expands
import Pipelines.Proofs.Openings

namespace Pipelines

/-!
# Expansion ends

Expansion of a pipeline is expansion of the expression that it is threaded into.
That expression has fewer openings, so no chain of expansions inside expansions
is infinite, and a tree has more nodes than its expansion threads pipelines,
whether it succeeds or not.
-/

/-- Expansion goes on in the parts of a tree that is no pipeline, and in the expression that a
pipeline is threaded into. -/
inductive Recurses (invocation : String) : Expr → Expr → Prop where
  | part {inner e : Expr} (plain : e.isInvocation invocation = false)
      (among : inner ∈ e.children) : Recurses invocation inner e
  | threaded (accepted : threadArguments invocation args supply = .ok (pipeline, threaded, rest)) :
      Recurses invocation threaded.toExpr (.call (.name invocation) args)

variable {invocation : String} {supply rest : Supply}

namespace Expr

theorem size_le_totalSize {e : Expr} {es : List Expr} (member : e ∈ es) :
    e.size ≤ totalSize es := by
  obtain ⟨before, after, rfl⟩ := List.append_of_mem member
  simp only [totalSize_append, totalSize]
  omega

theorem size_eq_children (e : Expr) : e.size = 1 + totalSize e.children := by
  cases e <;> simp only [size, children, totalSize] <;> omega

theorem openingsOf_children_le (e : Expr) :
    openingsOf invocation e.children ≤ e.openings invocation := by
  cases e with
  | call callee args =>
      simp only [children, openingsOf, openings]
      split
      · rename_i opened
        rw [openings_of_opens opened]
        omega
      · exact Nat.le_refl _
  | _ => simp [children, openingsOf, openings]

end Expr

/-- Below a tree the openings never grow, and they shrink where the nodes may grow. -/
theorem Recurses.wellFounded (invocation : String) : WellFounded (Recurses invocation) := by
  let measure (e : Expr) : Nat × Nat := (e.openings invocation, e.size)
  have descends : ∀ {inner e : Expr}, Recurses invocation inner e →
      InvImage (Prod.Lex (· < ·) (· < ·)) measure inner e := by
    intro inner e recurses
    cases recurses with
    | part _ among =>
        have smaller : inner.size < e.size := by
          have bounded := Expr.size_le_totalSize among
          rw [e.size_eq_children]
          omega
        have fewer : inner.openings invocation ≤ e.openings invocation :=
          Nat.le_trans (Expr.openings_le_of_mem among) e.openingsOf_children_le
        exact Prod.Lex.right' _ fewer smaller
    | threaded accepted => exact Prod.Lex.left _ _ (openings_threadArguments_lt accepted)
  exact Subrelation.wf descends
    (InvImage.wf measure (Prod.lex Nat.lt_wfRel Nat.lt_wfRel).wf)

theorem Expr.expandAll_append (es fs : List Expr) (supply : Supply) :
    Expr.expandAll invocation (es ++ fs) supply = (do
      let (es, supply) ← Expr.expandAll invocation es supply
      let (fs, supply) ← Expr.expandAll invocation fs supply
      return (es ++ fs, supply)) := by
  induction es generalizing supply with
  | nil => simp [expandAll]
  | cons e es ih => simp [expandAll, ih]

theorem Statement.expand_toExpr (statement : Statement) (supply : Supply) :
    statement.toExpr.expand invocation supply = (do
      let (value, supply) ← statement.value.expand invocation supply
      return (Statement.toExpr ⟨statement.binding, value⟩, supply)) := by
  obtain ⟨binding, value⟩ := statement
  cases named : binding.name? with
  | none => simp [Statement.toExpr, named]
  | some x => simp [Statement.toExpr, named, Expr.expand]

theorem expandAll_statements (statements : List Statement) (supply : Supply) :
    Expr.expandAll invocation (statements.map Statement.toExpr) supply = (do
      let (statements, supply) ← expandStatements invocation statements supply
      return (statements.map Statement.toExpr, supply)) := by
  induction statements generalizing supply with
  | nil => simp [Expr.expandAll, expandStatements]
  | cons statement statements ih =>
      simp [Expr.expandAll, expandStatements, Statement.expand_toExpr, ih]

theorem Threaded.expand_toExpr (threaded : Threaded) (supply : Supply) :
    threaded.toExpr.expand invocation supply = (do
      let (statements, supply) ← expandStatements invocation threaded.statements supply
      let (final, supply) ← threaded.final.expand invocation supply
      return (Threaded.toExpr ⟨statements, final⟩, supply)) := by
  obtain ⟨statements, final⟩ := threaded
  cases statements with
  | nil => simp [Threaded.toExpr, expandStatements]
  | cons statement statements =>
      simp [Threaded.toExpr, Expr.expand, Expr.expandAll, expandStatements,
        Expr.expandAll_append, Statement.expand_toExpr, expandAll_statements]

/-- A tree with other trees in the places of its parts. -/
def Expr.withChildren : Expr → List Expr → Expr
  | .call _ _, callee :: args => .call callee args
  | .assign _ _, [target, value] => .assign target value
  | .block _, lines => .block lines
  | .marked tag _, [inner] => .marked tag inner
  | e, _ => e

/-- A tree that is no pipeline expands part by part. -/
theorem Expr.expand_parts {e : Expr} (plain : e.isInvocation invocation = false) (supply : Supply) :
    e.expand invocation supply = (do
      let (parts, supply) ← Expr.expandAll invocation e.children supply
      return (e.withChildren parts, supply)) := by
  cases e with
  | call callee args =>
      rw [expand_call (isInvocation_call_eq_false.mp plain)]
      simp [children, expandAll, withChildren]
  | _ => simp [expand, children, expandAll, withChildren]

/-- A pipeline is reported and expands to what the expression that it is threaded into expands to. -/
theorem Expr.expand_threaded {args : List Expr} {pipeline : Pipeline} {threaded : Threaded}
    (accepted : threadArguments invocation args supply = .ok (pipeline, threaded, rest)) :
    (Expr.call (.name invocation) args).expand invocation supply = (do
      Traced.report (pipeline.events invocation threaded)
      threaded.toExpr.expand invocation rest) := by
  rw [Expr.expand_accepted accepted, Threaded.expand_toExpr]

def Traced.pipelines (run : Traced α) : Nat :=
  run.events.countP (·.level == "DEBUG")

theorem Traced.pipelines_bind_le {first : Traced α} {next : α → Traced β} {early late : Nat}
    (before : first.pipelines ≤ early) (behind : ∀ value, (next value).pipelines ≤ late) :
    (first >>= next).pipelines ≤ early + late := by
  rw [bind_eq, andThen]
  cases first.outcome with
  | error cause => exact Nat.le_add_right_of_le before
  | ok value =>
      have following := behind value
      simp only [pipelines, List.countP_append] at before following ⊢
      omega

theorem Traced.pipelines_bind_pure_le {first : Traced α} {result : α → β} {bound : Nat}
    (before : first.pipelines ≤ bound) :
    (first >>= fun value => pure (result value)).pipelines ≤ bound := by
  rwa [pipelines, events_bind_pure]

theorem Pipeline.pipelines_report (pipeline : Pipeline) (threaded : Threaded) :
    (Traced.report (pipeline.events invocation threaded)).pipelines = 1 := by
  have steps : (pipeline.steps.map Event.ofStep).countP (·.level == "DEBUG") = 0 := by
    rw [List.countP_map]
    exact List.countP_eq_zero.mpr fun _ _ traced => by cases traced
  rw [Traced.pipelines, Traced.report, Pipeline.events, List.countP_append, steps]
  rfl

theorem Expr.pipelines_expandAll_le {es : List Expr}
    (each : ∀ e ∈ es, ∀ supply, (e.expand invocation supply).pipelines ≤ e.openings invocation)
    (supply : Supply) :
    (Expr.expandAll invocation es supply).pipelines ≤ openingsOf invocation es := by
  induction es generalizing supply with
  | nil =>
      rw [expandAll]
      exact Nat.le_refl 0
  | cons e es ih =>
      rw [List.forall_mem_cons] at each
      rw [expandAll, openingsOf]
      exact Traced.pipelines_bind_le (each.1 supply) fun _ =>
        Traced.pipelines_bind_pure_le (ih each.2 _)

/-- An expansion threads no more pipelines than the tree has openings, also if it fails. -/
theorem Expr.pipelines_expand_le (invocation : String) (e : Expr) (supply : Supply) :
    (e.expand invocation supply).pipelines ≤ e.openings invocation := by
  induction e using (Recurses.wellFounded invocation).induction generalizing supply with
  | _ e ih =>
      cases pipeline : e.isInvocation invocation with
      | false =>
          have inParts : ∀ part ∈ e.children, ∀ supply,
              (part.expand invocation supply).pipelines ≤ part.openings invocation :=
            fun part among => ih part (.part pipeline among)
          rw [expand_parts pipeline]
          exact Nat.le_trans (Traced.pipelines_bind_pure_le (pipelines_expandAll_le inParts supply))
            e.openingsOf_children_le
      | true =>
          obtain ⟨args, rfl⟩ := isInvocation_iff.mp pipeline
          cases accepted : threadArguments invocation args supply with
          | error cause =>
              rw [expand_refused accepted]
              exact Nat.zero_le _
          | ok parts =>
              obtain ⟨pipeline, threaded, rest⟩ := parts
              have fewer := openings_threadArguments_lt accepted
              rw [expand_threaded accepted]
              refine Nat.le_trans (Traced.pipelines_bind_le
                (Nat.le_of_eq (pipeline.pipelines_report threaded))
                fun _ => ih _ (.threaded accepted) rest) ?_
              omega

namespace Config

/-- Expansion ends, with a tree or with an error. It goes on with the parts of a tree that is no
pipeline, and with the expression that a pipeline is threaded into, and no chain of these calls is
infinite. It reports at most as many pipelines as the tree has nodes. -/
theorem expand_ends (config : Config) (e : Expr) :
    Acc (Recurses config.invocation) e ∧
      (∀ (inner : Expr) supply, inner.isInvocation config.invocation = false →
        inner.expand config.invocation supply = (do
          let (parts, supply) ← Expr.expandAll config.invocation inner.children supply
          return (inner.withChildren parts, supply))) ∧
      (∀ args supply, (Expr.call (.name config.invocation) args).expand config.invocation supply =
        match threadArguments config.invocation args supply with
        | .error cause => .fail cause
        | .ok (pipeline, threaded, rest) => do
            Traced.report (pipeline.events config.invocation threaded)
            threaded.toExpr.expand config.invocation rest) ∧
      ((∃ expanded, (config.expand e).outcome = .ok expanded) ∨
        ∃ cause, (config.expand e).outcome = .error cause) ∧
      (config.expand e).events.countP (·.level == "DEBUG") ≤ e.size := by
  refine ⟨(Recurses.wellFounded config.invocation).apply e,
    fun inner supply plain => inner.expand_parts plain supply, fun args supply => ?_, ?_, ?_⟩
  · cases accepted : threadArguments config.invocation args supply with
    | error cause => exact Expr.expand_refused accepted
    | ok parts => exact Expr.expand_threaded accepted
  · cases (config.expand e).outcome with
    | ok expanded => exact .inl ⟨expanded, rfl⟩
    | error cause => exact .inr ⟨cause, rfl⟩
  · have counted := e.pipelines_expand_le config.invocation (.ofRoots config.stem [e])
    have fewer := e.openings_lt_size config.invocation
    have reported : (config.expand e).pipelines ≤ e.openings config.invocation :=
      Traced.pipelines_bind_pure_le counted
    exact Nat.le_trans reported (Nat.le_of_lt fewer)

end Config

end Pipelines
