import Pipelines.Proofs.Threaded
import Pipelines.Proofs.Visits
import Pipelines.Transform

namespace Pipelines

/-!
# Pipelines that remain

Expansion leaves no pipeline behind but in one case: a pipeline without steps is
its seed, and when the seed is the name that introduces pipelines, the call that
the pipeline was the callee of is a pipeline from then on.
-/

variable {invocation : String}

/-- A tree that expands to a bare name: the name, or a pipeline whose only expression does. -/
inductive ComesDownTo (invocation x : String) : Expr → Prop where
  | name : ComesDownTo invocation x (.name x)
  | seed (single : Expr.flatten args = [seed]) (inside : ComesDownTo invocation x seed) :
      ComesDownTo invocation x (.call (.name invocation) args)

theorem threadArguments_single {args : List Expr} {seed : Expr} {supply : Supply}
    (single : Expr.flatten args = [seed]) :
    threadArguments invocation args supply = .ok (⟨seed, []⟩, ⟨[], seed⟩, supply) :=
  threadArguments_eq_ok.mpr ⟨Pipeline.ofArguments_eq_ok.mpr ⟨[], single, rfl⟩, rfl⟩

theorem ComesDownTo.of_toExpr {args : List Expr} {pipeline : Pipeline} {threaded : Threaded}
    {supply rest : Supply} {x : String}
    (accepted : threadArguments invocation args supply = .ok (pipeline, threaded, rest))
    (down : ComesDownTo invocation x threaded.toExpr) :
    ComesDownTo invocation x (.call (.name invocation) args) := by
  obtain ⟨read, done⟩ := threadArguments_eq_ok.mp accepted
  obtain ⟨seed, steps⟩ := pipeline
  obtain ⟨es, flattened, follow⟩ := Pipeline.ofArguments_eq_ok.mp read
  cases steps with
  | nil =>
      cases done
      rw [Step.ofExprs_eq_nil follow] at flattened
      exact .seed flattened down
  | cons step steps =>
      rw [toExpr_of_steps (by simp) done] at down
      cases down

/-- The expansion of a tree is a bare name exactly when the tree comes down to it. -/
theorem Expands.eq_name_iff {e expanded : Expr} {supply rest : Supply} {x : String}
    (run : Expands invocation e supply expanded rest) :
    expanded = .name x ↔ ComesDownTo invocation x e := by
  constructor
  · intro named
    induction run using Expands.induction with
    | name y => cases named; exact .name
    | pipeline accepted _ ih => exact .of_toExpr accepted (ih named)
    | _ => cases named
  · intro down
    induction down generalizing supply rest with
    | name => cases run; rfl
    | seed single _ ih =>
        obtain ⟨pipeline, threaded, middle, accepted, inside⟩ := Expands.pipeline_iff.mp run
        rw [threadArguments_single single] at accepted
        cases accepted
        exact ih inside

/-- An expansion that comes to a call whose callee is a pipeline that comes down to the name of
pipelines. -/
def Reopens (invocation : String) (e : Expr) (supply : Supply) : Prop :=
  ∃ callee args, Visits invocation e supply (.call callee args) ∧
    callee.name? ≠ some invocation ∧ ComesDownTo invocation invocation callee

theorem Reopens.imp {e e' : Expr} {supply supply' : Supply} (reopens : Reopens invocation e supply)
    (visits : ∀ node, Visits invocation e supply node → Visits invocation e' supply' node) :
    Reopens invocation e' supply' := by
  obtain ⟨callee, args, visited, plain, down⟩ := reopens
  exact ⟨callee, args, visits _ visited, plain, down⟩

theorem Expands.reopens {e expanded node : Expr} {supply rest : Supply}
    (run : Expands invocation e supply expanded rest) (member : node ∈ expanded.nodes)
    (remaining : node.isInvocation invocation = true) : Reopens invocation e supply := by
  induction run using Expands.induction with
  | name | hole | raw =>
      cases List.mem_singleton.mp member
      cases remaining
  | call plain head _ first others =>
      rcases List.mem_cons.mp member with rfl | inside
      · have named := Expr.name?_eq_some.mp (beq_iff_eq.mp remaining)
        exact ⟨_, _, .self _ _, plain, head.eq_name_iff.mp named⟩
      rcases List.mem_append.mp inside with left | right
      · exact (first left).imp fun _ visited => .callee plain _ visited
      · obtain ⟨e', among, within⟩ := Expr.mem_nodesOf.mp right
        obtain ⟨_, _, after, _, _, _, rfl, earlier, _, reopens⟩ := others.at_result among
        exact (reopens within).imp fun _ visited =>
          .arg plain head earlier.forget visited after
  | assign head _ first second =>
      rcases List.mem_cons.mp member with rfl | inside
      · cases remaining
      rcases List.mem_append.mp inside with left | right
      · exact (first left).imp fun _ visited => .target _ visited
      · exact (second right).imp fun _ visited => .value head visited
  | block _ others =>
      rcases List.mem_cons.mp member with rfl | inside
      · cases remaining
      obtain ⟨e', among, within⟩ := Expr.mem_nodesOf.mp inside
      obtain ⟨_, _, after, _, _, _, rfl, earlier, _, reopens⟩ := others.at_result among
      exact (reopens within).imp fun _ visited =>
        .line earlier.forget visited after
  | marked tag _ ih =>
      rcases List.mem_cons.mp member with rfl | inside
      · cases remaining
      exact (ih inside).imp fun _ visited => .inner tag visited
  | pipeline accepted _ ih =>
      exact (ih member).imp fun _ visited => .threaded accepted visited

theorem Reopens.remaining {e expanded : Expr} {supply rest : Supply}
    (reopens : Reopens invocation e supply) (run : Expands invocation e supply expanded rest) :
    ∃ node ∈ expanded.nodes, node.isInvocation invocation = true := by
  obtain ⟨callee, args, visited, plain, down⟩ := reopens
  obtain ⟨_, result, _, call, within⟩ := visited.expands run
  obtain ⟨callee', _, args', head, _, rfl⟩ := (Expands.call_iff plain).mp call
  have named := head.eq_name_iff.mpr down
  exact ⟨_, within (Expr.mem_nodes_self _), by simp [named, Expr.isInvocation]⟩

mutual

theorem Expr.expand_eq_self {e : Expr} (supply : Supply)
    (none : ∀ node ∈ e.nodes, node.isInvocation invocation = false) :
    e.expand invocation supply = pure (e, supply) := by
  cases e with
  | name x => rw [expand]
  | hole => rw [expand]
  | raw payload => rw [expand]
  | call callee args =>
      simp only [nodes, List.forall_mem_cons, List.forall_mem_append] at none
      obtain ⟨plain, head, tail⟩ := none
      rw [expand_call (isInvocation_call_eq_false.mp plain)]
      simp only [expand_eq_self supply head, expandAll_eq_self supply tail, pure_bind]
  | assign target value =>
      simp only [nodes, List.forall_mem_cons, List.forall_mem_append] at none
      simp only [expand, expand_eq_self supply none.2.1, expand_eq_self supply none.2.2, pure_bind]
  | block lines =>
      simp only [nodes, List.forall_mem_cons] at none
      rw [expand, expandAll_eq_self supply none.2, pure_bind]
  | marked tag inner =>
      simp only [nodes, List.forall_mem_cons] at none
      rw [expand, expand_eq_self supply none.2, pure_bind]

theorem Expr.expandAll_eq_self {es : List Expr} (supply : Supply)
    (none : ∀ node ∈ nodesOf es, node.isInvocation invocation = false) :
    expandAll invocation es supply = pure (es, supply) := by
  cases es with
  | nil => rw [expandAll]
  | cons e es =>
      simp only [nodesOf, List.forall_mem_append] at none
      simp only [expandAll, expand_eq_self supply none.1, expandAll_eq_self supply none.2, pure_bind]

end

theorem Expands.refl {e : Expr} (supply : Supply)
    (none : ∀ node ∈ e.nodes, node.isInvocation invocation = false) :
    Expands invocation e supply e supply := by
  rw [Expands.outcome_iff, Expr.expand_eq_self supply none, Traced.outcome_pure]

namespace Config

theorem outcome_expand {config : Config} {e expanded : Expr} :
    (config.expand e).outcome = .ok expanded ↔
      ∃ rest, Expands config.invocation e (.ofRoots config.stem [e]) expanded rest := by
  simp only [expand, Traced.outcome_bind_eq_ok, Prod.exists, Expands.outcome_iff]
  constructor
  · intro parts
    obtain ⟨result, rest, done, same⟩ := parts
    cases same
    exact ⟨rest, done⟩
  · intro parts
    obtain ⟨rest, done⟩ := parts
    exact ⟨expanded, rest, done, rfl⟩

/-- A successful expansion leaves no pipeline behind exactly when it comes to no call whose callee
is a pipeline that comes down to the name of pipelines. Then nothing is left to expand. -/
theorem expand_removes_pipelines_iff {config : Config} {e expanded : Expr}
    (done : (config.expand e).outcome = .ok expanded) :
    ((∀ node ∈ expanded.nodes, node.isInvocation config.invocation = false) ↔
      ¬ Reopens config.invocation e (.ofRoots config.stem [e])) ∧
    (¬ Reopens config.invocation e (.ofRoots config.stem [e]) →
      (config.expand expanded).outcome = .ok expanded) := by
  obtain ⟨rest, run⟩ := outcome_expand.mp done
  have removed : (∀ node ∈ expanded.nodes, node.isInvocation config.invocation = false) ↔
      ¬ Reopens config.invocation e (.ofRoots config.stem [e]) := by
    constructor
    · intro none reopens
      obtain ⟨node, member, remaining⟩ := reopens.remaining run
      rw [none node member] at remaining
      cases remaining
    · intro closed node member
      rw [Bool.eq_false_iff]
      exact fun remaining => closed (run.reopens member remaining)
  exact ⟨removed, fun closed => outcome_expand.mpr ⟨_, .refl _ (removed.mpr closed)⟩⟩

/-- In `@chain(x, @chain, (@chain(_))(@chain(y)))` all pipelines go, those that expansion brings
about included. -/
theorem expand_removes_pipelines_from_steps :
    (expand {} (.call (.name "@chain") [.name "x", .name "@chain",
      .call (.call (.name "@chain") [.hole]) [.call (.name "@chain") [.name "y"]]])).outcome =
      .ok (.block [.assign (.name "__chain_1") (.name "x"),
        .assign (.name "__chain_2") (.call (.name "__chain_1") [.name "y"]),
        .name "__chain_2"]) ∧
    ¬ Reopens "@chain" (.call (.name "@chain") [.name "x", .name "@chain",
      .call (.call (.name "@chain") [.hole]) [.call (.name "@chain") [.name "y"]]])
      ⟨"__chain_", 0, ["@chain", "x", "@chain", "@chain", "@chain", "y"]⟩ ∧
    (expand {} (.block [.assign (.name "__chain_1") (.name "x"),
      .assign (.name "__chain_2") (.call (.name "__chain_1") [.name "y"]),
      .name "__chain_2"])).outcome =
      .ok (.block [.assign (.name "__chain_1") (.name "x"),
        .assign (.name "__chain_2") (.call (.name "__chain_1") [.name "y"]),
        .name "__chain_2"]) := by
  have done : (expand {} (.call (.name "@chain") [.name "x", .name "@chain",
      .call (.call (.name "@chain") [.hole]) [.call (.name "@chain") [.name "y"]]])).outcome =
      .ok (.block [.assign (.name "__chain_1") (.name "x"),
        .assign (.name "__chain_2") (.call (.name "__chain_1") [.name "y"]),
        .name "__chain_2"]) := by cbv
  obtain ⟨removed, stable⟩ := expand_removes_pipelines_iff done
  have closed := removed.mp (by decide)
  exact ⟨done, closed, stable closed⟩

/-- The callee of `(@chain(@chain))(x)` comes down to `@chain`, and the call that it leaves is a
pipeline, which another expansion would still thread. -/
theorem expand_leaves_pipeline_of_callee :
    (expand {} (.call (.call (.name "@chain") [.name "@chain"]) [.name "x"])).outcome =
      .ok (.call (.name "@chain") [.name "x"]) ∧
    (Expr.call (.name "@chain") [.name "x"]).isInvocation "@chain" = true ∧
    (expand {} (.call (.name "@chain") [.name "x"])).outcome = .ok (.name "x") := by
  refine ⟨by cbv, by decide, by cbv⟩

end Config

end Pipelines
