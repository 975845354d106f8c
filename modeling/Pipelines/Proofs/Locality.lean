import Mathlib.Data.List.Forall2
import Pipelines.Proofs.Lockstep

namespace Pipelines

/-!
# Locality

A tree expands by the expansion of each of its outermost pipelines. These share
one supply, so what is drawn for one depends on the others and on the rest of the
tree, but only in its spelling: what a pipeline becomes, and whether it is
accepted, depends on the pipeline alone.
-/

open Supply (Later)

variable {invocation : String} {supply rest : Supply}

namespace Expr

mutual

/-- The pipelines of a tree that are inside no other one, in reading order. -/
def outermost (invocation : String) : Expr → List Expr
  | .call callee args =>
      if callee.name? = some invocation then [.call callee args]
      else callee.outermost invocation ++ outermostOf invocation args
  | .assign target value => target.outermost invocation ++ value.outermost invocation
  | .block lines => outermostOf invocation lines
  | .marked _ inner => inner.outermost invocation
  | .name _ | .hole | .raw _ => []

def outermostOf (invocation : String) : List Expr → List Expr
  | [] => []
  | e :: es => e.outermost invocation ++ outermostOf invocation es

end

mutual

/-- The tree with the first of some parts in the places of its outermost pipelines, and the parts
that are left over. -/
def graft (invocation : String) : Expr → List Expr → Expr × List Expr
  | .call callee args, parts =>
      if callee.name? = some invocation then
        match parts with
        | [] => (.call callee args, [])
        | part :: parts => (part, parts)
      else
        let (callee, parts) := callee.graft invocation parts
        let (args, parts) := graftAll invocation args parts
        (.call callee args, parts)
  | .assign target value, parts =>
      let (target, parts) := target.graft invocation parts
      let (value, parts) := value.graft invocation parts
      (.assign target value, parts)
  | .block lines, parts =>
      let (lines, parts) := graftAll invocation lines parts
      (.block lines, parts)
  | .marked tag inner, parts =>
      let (inner, parts) := inner.graft invocation parts
      (.marked tag inner, parts)
  | .name x, parts => (.name x, parts)
  | .hole, parts => (.hole, parts)
  | .raw payload, parts => (.raw payload, parts)

def graftAll (invocation : String) : List Expr → List Expr → List Expr × List Expr
  | [], parts => ([], parts)
  | e :: es, parts =>
      let (e, parts) := e.graft invocation parts
      let (es, parts) := graftAll invocation es parts
      (e :: es, parts)

end

theorem outermost_of_isInvocation {e : Expr} (pipeline : e.isInvocation invocation = true) :
    e.outermost invocation = [e] := by
  cases e with
  | call callee args => simp_all [isInvocation, outermost]
  | _ => cases pipeline

theorem outermost_of_plain {e : Expr} (plain : e.isInvocation invocation = false) :
    e.outermost invocation = outermostOf invocation e.children := by
  cases e <;> simp_all [isInvocation, outermost, outermostOf, children]

theorem mem_outermostOf {es : List Expr} {pipeline : Expr} :
    pipeline ∈ outermostOf invocation es ↔ ∃ e ∈ es, pipeline ∈ e.outermost invocation := by
  induction es with
  | nil => simp [outermostOf]
  | cons e es ih => simp [outermostOf, ih]

theorem mem_outermost {e pipeline : Expr} (member : pipeline ∈ e.outermost invocation) :
    pipeline ∈ e.nodes ∧ pipeline.isInvocation invocation = true := by
  cases opens : e.isInvocation invocation with
  | true =>
      rw [outermost_of_isInvocation opens] at member
      cases List.mem_singleton.mp member
      exact ⟨mem_nodes_self e, opens⟩
  | false =>
      rw [outermost_of_plain opens] at member
      obtain ⟨part, inner, within⟩ := mem_outermostOf.mp member
      have smaller := size_lt_of_mem_children inner
      obtain ⟨among, opened⟩ := mem_outermost within
      rw [nodes_eq_children]
      exact ⟨List.mem_cons_of_mem _ (mem_nodesOf.mpr ⟨part, inner, among⟩), opened⟩
termination_by e.size

mutual

/-- A tree is its own outermost pipelines in their places. -/
theorem graft_outermost (e : Expr) (others : List Expr) :
    e.graft invocation (e.outermost invocation ++ others) = (e, others) := by
  cases e with
  | call callee args =>
      by_cases pipeline : callee.name? = some invocation
      · simp [outermost, graft, pipeline]
      · simp [outermost, graft, pipeline, graft_outermost callee, graftAll_outermost args]
  | assign target value =>
      simp [outermost, graft, graft_outermost target, graft_outermost value]
  | block lines => simp [outermost, graft, graftAll_outermost lines]
  | marked tag inner => simp [outermost, graft, graft_outermost inner]
  | name | hole | raw => simp [outermost, graft]

theorem graftAll_outermost (es : List Expr) (others : List Expr) :
    graftAll invocation es (outermostOf invocation es ++ others) = (es, others) := by
  cases es with
  | nil => rfl
  | cons e es => simp [outermostOf, graftAll, graft_outermost e, graftAll_outermost es]

end

/-- What a tree expands to is the tree with what its outermost pipelines expand to grafted on, and
the same supply is left. -/
abbrev GraftedRun (invocation : String) (e : Expr) (parts : List Expr × Supply)
    (expanded : Expr × Supply) : Prop :=
  expanded.2 = parts.2 ∧
    ∀ others, e.graft invocation (parts.1 ++ others) = (expanded.1, others)

abbrev GraftedRuns (invocation : String) (es : List Expr) (parts : List Expr × Supply)
    (expanded : List Expr × Supply) : Prop :=
  expanded.2 = parts.2 ∧
    ∀ others, graftAll invocation es (parts.1 ++ others) = (expanded.1, others)

theorem outcome_expandAll_cons (e : Expr) (es : List Expr) (supply : Supply) :
    (expandAll invocation (e :: es) supply).outcome =
      (e.expand invocation supply).outcome >>= fun (e, supply) =>
        (expandAll invocation es supply).outcome >>= fun (es, supply) => .ok (e :: es, supply) := by
  simp only [expandAll, Traced.outcome_bind]
  rfl

theorem outcome_expandAll_singleton (e : Expr) (supply : Supply) :
    (expandAll invocation [e] supply).outcome =
      (e.expand invocation supply).outcome >>= fun (e, supply) => .ok ([e], supply) := by
  rw [outcome_expandAll_cons]
  simp only [expandAll]
  rfl

mutual

theorem expand_outermost (e : Expr) (supply : Supply) :
    SameOutcome (GraftedRun invocation e)
      (expandAll invocation (e.outermost invocation) supply).outcome
      (e.expand invocation supply).outcome := by
  cases e with
  | call callee args =>
      by_cases pipeline : callee.name? = some invocation
      · rw [outermost, if_pos pipeline, outcome_expandAll_singleton]
        cases ((Expr.call callee args).expand invocation supply).outcome with
        | error cause => exact .error rfl rfl
        | ok expanded => exact .ok ⟨rfl, fun _ => by simp [graft, pipeline]⟩
      · rw [outermost, if_neg pipeline, expandAll_append, expand_call pipeline,
          Traced.outcome_bind, Traced.outcome_bind]
        refine (expand_outermost callee supply).bind ?_
        rintro ⟨parts, _⟩ ⟨callee', middle⟩ _ ⟨rfl, grafted⟩
        rw [Traced.outcome_bind, Traced.outcome_bind]
        refine (expandAll_outermost args middle).bind ?_
        rintro ⟨others, _⟩ ⟨args', rest⟩ _ ⟨rfl, graftedAll⟩
        exact .ok ⟨rfl, by simp [graft, pipeline, grafted, graftedAll]⟩
  | assign target value =>
      rw [outermost, expandAll_append, expand, Traced.outcome_bind, Traced.outcome_bind]
      refine (expand_outermost target supply).bind ?_
      rintro ⟨parts, _⟩ ⟨target', middle⟩ _ ⟨rfl, first⟩
      rw [Traced.outcome_bind, Traced.outcome_bind]
      refine (expand_outermost value middle).bind ?_
      rintro ⟨others, _⟩ ⟨value', rest⟩ _ ⟨rfl, second⟩
      exact .ok ⟨rfl, by simp [graft, first, second]⟩
  | block lines =>
      rw [outermost, expand, Traced.outcome_bind]
      refine (expandAll_outermost lines supply).bind_right ?_
      rintro ⟨parts, _⟩ ⟨lines', rest⟩ ⟨rfl, grafted⟩
      exact .ok ⟨rfl, by simp [graft, grafted]⟩
  | marked tag inner =>
      rw [outermost, expand, Traced.outcome_bind]
      refine (expand_outermost inner supply).bind_right ?_
      rintro ⟨parts, _⟩ ⟨inner', rest⟩ ⟨rfl, grafted⟩
      exact .ok ⟨rfl, by simp [graft, grafted]⟩
  | name | hole | raw =>
      rw [outermost, expandAll, expand]
      exact .ok ⟨rfl, fun _ => rfl⟩

theorem expandAll_outermost (es : List Expr) (supply : Supply) :
    SameOutcome (GraftedRuns invocation es)
      (expandAll invocation (outermostOf invocation es) supply).outcome
      (expandAll invocation es supply).outcome := by
  cases es with
  | nil =>
      rw [outermostOf, expandAll]
      exact .ok ⟨rfl, fun _ => rfl⟩
  | cons e es =>
      rw [outermostOf, expandAll_append, expandAll, Traced.outcome_bind, Traced.outcome_bind]
      refine (expand_outermost e supply).bind ?_
      rintro ⟨parts, _⟩ ⟨e', middle⟩ _ ⟨rfl, grafted⟩
      rw [Traced.outcome_bind, Traced.outcome_bind]
      refine (expandAll_outermost es middle).bind ?_
      rintro ⟨others, _⟩ ⟨es', rest⟩ _ ⟨rfl, graftedAll⟩
      exact .ok ⟨rfl, by simp [graftAll, grafted, graftedAll]⟩

end

end Expr

/-- A renaming of what a pipeline becomes on its own that affects the synthesised names only. These
stay different from one another, and become names that are not written in the whole tree. -/
structure Respells (whole pipeline own : Expr) (new : String → String) : Prop where
  kept : ∀ x ∈ pipeline.names, new x = x
  injective : Set.InjOn new {x | x ∈ own.names}
  unwritten : ∀ x ∈ own.names, x ∉ pipeline.names → new x ∉ whole.names

namespace Config

/-- What stands for a pipeline in an expanded tree. -/
def StandsFor (config : Config) (whole pipeline part : Expr) : Prop :=
  ∃ own new, (config.expand pipeline).outcome = .ok own ∧ Respells whole pipeline own new ∧
    part = own.rename new

/-- The first of some pipelines that is refused breaks the same rule at the same step. -/
def FirstFails (config : Config) (pipelines : List Expr) (cause : Error) : Prop :=
  ∃ before pipeline after own, pipelines = before ++ pipeline :: after ∧
    (∀ earlier ∈ before, ∃ expanded, (config.expand earlier).outcome = .ok expanded) ∧
    (config.expand pipeline).outcome = .error own ∧
    own.rule = cause.rule ∧ own.step? = cause.step?

variable {config : Config} {e pipeline own : Expr} {pipelines : List Expr}

theorem FirstFails.behind {cause : Error} (first : config.FirstFails pipelines cause)
    (accepted : (config.expand pipeline).outcome = .ok own) :
    config.FirstFails (pipeline :: pipelines) cause := by
  obtain ⟨before, refused, after, own', rfl, earlier, broken⟩ := first
  exact ⟨pipeline :: before, refused, after, own', rfl,
    List.forall_mem_cons.mpr ⟨⟨own, accepted⟩, earlier⟩, broken⟩

theorem FirstFails.same {cause cause' : Error} (first : config.FirstFails pipelines cause)
    (rule : cause.rule = cause'.rule) (step : cause.step? = cause'.step?) :
    config.FirstFails pipelines cause' := by
  rwa [FirstFails, ← rule, ← step]

theorem FirstFails.refused {cause : Error} (first : config.FirstFails pipelines cause) :
    ¬ ∀ pipeline ∈ pipelines, ∃ own, (config.expand pipeline).outcome = .ok own := by
  obtain ⟨before, pipeline, after, own, rfl, _, refused, _⟩ := first
  intro accepted
  obtain ⟨expanded, done⟩ := accepted pipeline (by simp)
  rw [refused] at done
  cases done

theorem accepted_of_standsFor {parts : List Expr}
    (stand : List.Forall₂ (config.StandsFor e) pipelines parts) :
    ∀ pipeline ∈ pipelines, ∃ own, (config.expand pipeline).outcome = .ok own := by
  induction stand with
  | nil => simp
  | cons head _ ih =>
      obtain ⟨own, _, alone, _⟩ := head
      exact List.forall_mem_cons.mpr ⟨⟨own, alone⟩, ih⟩

/-- With what is left of the supply of a tree, a pipeline of the tree becomes what it becomes on its
own, but for the spelling. -/
theorem expand_respelled (opened : pipeline.isInvocation config.invocation = true)
    (within : pipeline.names ⊆ e.names) (later : Later (.ofRoots config.stem [e]) supply) :
    SameOutcome (fun own part => ∃ new, Respells e pipeline own new ∧ part.1 = own.rename new)
      (config.expand pipeline).outcome (pipeline.expand config.invocation supply).outcome := by
  have named := Expr.mem_names_of_isInvocation opened
  have old : ∀ x ∈ pipeline.names, ¬ (Supply.ofRoots config.stem [pipeline]).Ahead x :=
    fun x member => Supply.not_ahead_of_mem_names member
  have unused : ∀ x ∈ e.names, ¬ supply.Ahead x := fun x member ahead =>
    Supply.not_ahead_of_mem_names member (later.ahead ahead)
  have run := pipeline.expand_rename (Supply.toward_eq_iff (old _ named) (unused _ (within named)))
    (Supply.toward_corresponds _ supply)
  rw [Expr.rename_toward_ofRoots] at run
  rw [outcome_expand_eq_bind, ← bind_pure (pipeline.expand config.invocation supply).outcome]
  refine run.bind ?_
  rintro ⟨own, rest⟩ ⟨_, _⟩ done ⟨rfl, _⟩
  have drawn : ∀ x ∈ own.names,
      x ∈ pipeline.names ∨ (Supply.ofRoots config.stem [pipeline]).Ahead x := fun x member =>
    ((Expands.outcome_iff.mpr done).names member).imp_right And.left
  refine .ok ⟨_, ⟨?kept, ?injective, ?unwritten⟩, rfl⟩
  case kept => exact fun x member => Supply.toward_eq_self (old x member)
  case injective =>
    exact (Supply.toward_injOn old fun x member => unused x (within member)).mono drawn
  case unwritten =>
    intro x member fresh written
    obtain ⟨count, rfl⟩ := ((drawn x member).resolve_left fresh).eq_nth
    rw [Supply.toward_corresponds] at written
    exact unused _ written (supply.nth_ahead count)

/-- Pipelines that share a supply are accepted if each is accepted on its own, and fail with the
first that is not. -/
theorem expandAll_respelled (among : ∀ pipeline ∈ pipelines,
      pipeline.isInvocation config.invocation = true ∧ pipeline.names ⊆ e.names)
    (later : Later (.ofRoots config.stem [e]) supply) :
    (∃ parts rest, (Expr.expandAll config.invocation pipelines supply).outcome = .ok (parts, rest) ∧
        List.Forall₂ (config.StandsFor e) pipelines parts) ∨
      ∃ cause, (Expr.expandAll config.invocation pipelines supply).outcome = .error cause ∧
        config.FirstFails pipelines cause := by
  induction pipelines generalizing supply with
  | nil => exact .inl ⟨[], supply, by rw [Expr.expandAll]; rfl, .nil⟩
  | cons pipeline pipelines ih =>
      obtain ⟨⟨opened, within⟩, others⟩ := List.forall_mem_cons.mp among
      rw [Expr.outcome_expandAll_cons]
      rcases (expand_respelled opened within later).ok_or_error with
        ⟨own, ⟨part, middle⟩, alone, here, new, respells, spelled⟩ |
        ⟨own, cause, alone, here, rule, step⟩
      · have after : Later supply middle := (Expands.outcome_iff.mpr here).later
        rcases ih others (later.trans after) with ⟨parts, rest, done, stand⟩ | ⟨cause, done, first⟩
        · refine .inl ⟨part :: parts, rest, ?_, .cons ⟨own, new, alone, respells, spelled⟩ stand⟩
          simp [here, done, bind, Except.bind]
        · refine .inr ⟨cause, ?_, first.behind alone⟩
          simp [here, done, bind, Except.bind]
      · rw [here]
        exact .inr ⟨cause, rfl, [], pipeline, pipelines, own, rfl, by simp, alone, rule, step⟩

theorem expand_grafts_or_fails (config : Config) (e : Expr) :
    (∃ expanded parts, (config.expand e).outcome = .ok expanded ∧
        e.graft config.invocation parts = (expanded, []) ∧
        List.Forall₂ (config.StandsFor e) (e.outermost config.invocation) parts) ∨
      ∃ cause, (config.expand e).outcome = .error cause ∧
        config.FirstFails (e.outermost config.invocation) cause := by
  have among : ∀ pipeline ∈ e.outermost config.invocation,
      pipeline.isInvocation config.invocation = true ∧ pipeline.names ⊆ e.names := by
    intro pipeline member
    obtain ⟨node, opened⟩ := Expr.mem_outermost member
    exact ⟨opened, Expr.names_subset_of_mem_nodes node⟩
  have apart := expandAll_respelled among (.refl (.ofRoots config.stem [e]))
  have grafts : SameOutcome (Expr.GraftedRun config.invocation e) _ _ :=
    e.expand_outermost (.ofRoots config.stem [e])
  rw [outcome_expand_eq_bind]
  rcases apart with ⟨parts, rest, done, stand⟩ | ⟨cause, failed, first⟩
  · rw [done] at grafts
    rcases grafts.ok_or_error with ⟨_, ⟨expanded, _⟩, ⟨⟩, whole, _, grafted⟩ | ⟨_, _, ⟨⟩, _⟩
    have exactly := grafted []
    rw [List.append_nil] at exactly
    exact .inl ⟨expanded, parts, by rw [whole]; rfl, exactly, stand⟩
  · rw [failed] at grafts
    rcases grafts.ok_or_error with ⟨_, _, ⟨⟩, _⟩ | ⟨_, cause', ⟨⟩, whole, rule, step⟩
    exact .inr ⟨cause', by rw [whole]; rfl, first.same rule step⟩

/-- A tree expands exactly when each of its outermost pipelines does on its own. What these become
stands in their places, and all else is as it was. If some are refused, then the first of them
decides which rule is broken at which step. -/
theorem expand_outermost_apart (config : Config) (e : Expr) :
    ((∃ expanded, (config.expand e).outcome = .ok expanded) ↔
        ∀ pipeline ∈ e.outermost config.invocation,
          ∃ own, (config.expand pipeline).outcome = .ok own) ∧
      (∀ expanded, (config.expand e).outcome = .ok expanded →
        ∃ parts, e.graft config.invocation parts = (expanded, []) ∧
          List.Forall₂ (config.StandsFor e) (e.outermost config.invocation) parts) ∧
      ∀ cause, (config.expand e).outcome = .error cause →
        config.FirstFails (e.outermost config.invocation) cause := by
  rcases config.expand_grafts_or_fails e with
    ⟨expanded, parts, done, grafted, stand⟩ | ⟨cause, failed, first⟩
  · rw [done]
    refine ⟨iff_of_true ⟨expanded, rfl⟩ (accepted_of_standsFor stand), ?_, ?_⟩
    · rintro _ ⟨⟩
      exact ⟨parts, grafted, stand⟩
    · rintro _ ⟨⟩
  · rw [failed]
    refine ⟨iff_of_false ?_ first.refused, ?_, ?_⟩
    · rintro ⟨_, ⟨⟩⟩
    · rintro _ ⟨⟩
    · rintro _ ⟨⟩
      exact first

/-- The two pipelines leave out `__chain_1`, which is written next to them. -/
theorem expand_outermost_apart_of_siblings :
    (expand {} (.block [.call (.name "@chain") [.call (.name "f") [], .name "g"],
        .call (.name "@chain") [.call (.name "h") [], .name "k"], .name "__chain_1"])).outcome =
      .ok (.block [.block [.assign (.name "__chain_2") (.call (.name "f") []),
          .assign (.name "__chain_3") (.call (.name "g") [.name "__chain_2"]), .name "__chain_3"],
        .block [.assign (.name "__chain_4") (.call (.name "h") []),
          .assign (.name "__chain_5") (.call (.name "k") [.name "__chain_4"]), .name "__chain_5"],
        .name "__chain_1"]) ∧
    ∃ parts, (Expr.block [.call (.name "@chain") [.call (.name "f") [], .name "g"],
          .call (.name "@chain") [.call (.name "h") [], .name "k"], .name "__chain_1"]).graft
        "@chain" parts =
        (.block [.block [.assign (.name "__chain_2") (.call (.name "f") []),
            .assign (.name "__chain_3") (.call (.name "g") [.name "__chain_2"]), .name "__chain_3"],
          .block [.assign (.name "__chain_4") (.call (.name "h") []),
            .assign (.name "__chain_5") (.call (.name "k") [.name "__chain_4"]), .name "__chain_5"],
          .name "__chain_1"], []) ∧
      List.Forall₂ (StandsFor {} (.block [.call (.name "@chain") [.call (.name "f") [], .name "g"],
          .call (.name "@chain") [.call (.name "h") [], .name "k"], .name "__chain_1"]))
        [.call (.name "@chain") [.call (.name "f") [], .name "g"],
          .call (.name "@chain") [.call (.name "h") [], .name "k"]] parts := by
  have done : (expand {} (.block [.call (.name "@chain") [.call (.name "f") [], .name "g"],
        .call (.name "@chain") [.call (.name "h") [], .name "k"], .name "__chain_1"])).outcome =
      .ok (.block [.block [.assign (.name "__chain_2") (.call (.name "f") []),
          .assign (.name "__chain_3") (.call (.name "g") [.name "__chain_2"]), .name "__chain_3"],
        .block [.assign (.name "__chain_4") (.call (.name "h") []),
          .assign (.name "__chain_5") (.call (.name "k") [.name "__chain_4"]), .name "__chain_5"],
        .name "__chain_1"]) := by cbv
  exact ⟨done, (expand_outermost_apart {} _).2.1 _ done⟩

end Config

end Pipelines
