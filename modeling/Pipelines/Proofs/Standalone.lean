import Pipelines.Proofs.Lockstep
import Pipelines.Proofs.Refusal

namespace Pipelines

variable {invocation : String} {supply other : Supply}

namespace Supply

/-- Only the taken names that begin with its stem have a part in what a supply draws. -/
theorem next_of_taken {others : List String}
    (same : ∀ counter, nameAt supply.stem counter ∈ others ↔
      nameAt supply.stem counter ∈ supply.taken) :
    next { supply with taken := others } =
      (supply.next.1, { supply.next.2 with taken := others }) := by
  have counter : firstFree supply.stem (supply.used + 1) others =
      firstFree supply.stem (supply.used + 1) supply.taken :=
    firstFree_congr fun counter _ => same counter
  simp only [next, counter]

theorem corresponds_of_taken {others : List String}
    (same : ∀ counter, nameAt supply.stem counter ∈ others ↔
      nameAt supply.stem counter ∈ supply.taken) :
    Corresponds id supply { supply with taken := others } := by
  intro count
  induction count generalizing supply with
  | zero => rw [nth, nth, next_of_taken same, id]
  | succ count ih =>
      have later : id (supply.next.2.nth count) =
          nth { supply.next.2 with taken := others } count := ih same
      rw [nth, nth, next_of_taken same]
      exact later

theorem corresponds_of_root {stem invocation : String} (args : List Expr)
    (apart : ∀ counter, invocation ≠ nameAt stem counter) :
    Corresponds id (ofRoots stem args) (ofRoots stem [.call (.name invocation) args]) := by
  refine corresponds_of_taken fun counter => ?_
  simp [ofRoots, Expr.namesOf, Expr.names, (apart counter).symm]

end Supply

open Supply (Corresponds)

theorem Threaded.rename_id (threaded : Threaded) : threaded.rename id = threaded := by
  have value (e : Expr) : e.rename id = e := Expr.rename_eq_self fun _ _ => rfl
  have statement (statement : Statement) : statement.rename id = statement := by
    obtain ⟨binding, e⟩ := statement
    cases binding <;> simp [Statement.rename, Binding.rename, value]
  obtain ⟨statements, final⟩ := threaded
  simp [rename, funext statement, value]

theorem threadArguments_of_corresponds {args : List Expr} {pipeline : Pipeline}
    {threaded : Threaded} {rest : Supply} (corresponds : Corresponds id supply other)
    (accepted : threadArguments invocation args supply = .ok (pipeline, threaded, rest)) :
    ∃ rest', threadArguments invocation args other = .ok (pipeline, threaded, rest') := by
  have apart : KeepsApart id invocation (Expr.namesOf args) := fun _ _ => Iff.rfl
  have kept : Expr.renameAll id args = args := Expr.renameAll_eq_self fun _ _ => rfl
  have run := threadArguments_rename apart corresponds
  rw [kept] at run
  rcases run.ok_or_error with
    ⟨_, ⟨pipeline', threaded', rest'⟩, found, accepted', same, _⟩ | ⟨_, _, refused, _⟩
  · rw [accepted] at found
    cases found
    rw [Threaded.rename_id] at same
    cases same
    have read := (threadArguments_eq_ok.mp accepted).1
    rw [(threadArguments_eq_ok.mp accepted').1] at read
    cases read
    exact ⟨rest', accepted'⟩
  · rw [accepted] at refused
    cases refused

namespace Config

/-- A pipeline in whose arguments no pipeline is written expands to what it is transformed into, with
the same names and the same events, or fails for the same reason. -/
theorem expand_pipeline_eq_transformInvocation {config : Config} {args : List Expr}
    (unwritten : config.invocation ∉ Expr.namesOf args)
    (apart : ∀ counter, config.invocation ≠ Supply.nameAt config.stem counter) :
    config.expand (.call (.name config.invocation) args) = config.transformInvocation args := by
  rw [expand, transformInvocation, threadInvocation]
  cases accepted : threadArguments config.invocation args (.ofRoots config.stem args) with
  | error cause =>
      have refused : threadArguments config.invocation args (.ofRoots config.stem
          [.call (.name config.invocation) args]) = .error cause :=
        threadArguments_eq_error_iff.mpr (threadArguments_eq_error_iff.mp accepted)
      rw [Expr.expand_refused refused]
      rfl
  | ok parts =>
      obtain ⟨pipeline, threaded, rest⟩ := parts
      obtain ⟨rest', accepted'⟩ :=
        threadArguments_of_corresponds (Supply.corresponds_of_root args apart) accepted
      have gone : config.invocation ∉ threaded.toExpr.names := by
        intro member
        rcases threadArguments_names accepted _ member with written | ⟨⟨counter, _, drawn, _⟩, _⟩
        · exact unwritten written
        · exact apart counter drawn
      simp [Expr.expand_threaded accepted', Expr.expand_eq_self rest' (Expr.no_invocation gone)]

/-- `__chain_1` is written, so the names drawn are `__chain_2` and `__chain_3` either way. -/
theorem expand_standalone_pipeline :
    "@chain" ∉ Expr.namesOf [.call (.name "__chain_1") [], .block [.marked .broadcast (.name "f"),
        .marked .aside (.call (.name "log") [.hole])]] ∧
      expand {} (.call (.name "@chain") [.call (.name "__chain_1") [],
          .block [.marked .broadcast (.name "f"), .marked .aside (.call (.name "log") [.hole])]]) =
        transformInvocation {} [.call (.name "__chain_1") [],
          .block [.marked .broadcast (.name "f"), .marked .aside (.call (.name "log") [.hole])]] ∧
      transformInvocation {} [.call (.name "__chain_1") [],
          .block [.marked .broadcast (.name "f"), .marked .aside (.call (.name "log") [.hole])]] =
        ⟨[.step 1 .broadcast none, .step 2 .aside none, .pipeline "@chain" 2 3],
          .ok (.block [.assign (.name "__chain_2") (.call (.name "__chain_1") []),
            .assign (.name "__chain_3")
              (.call (.marked .broadcast (.name "f")) [.name "__chain_2"]),
            .call (.name "log") [.name "__chain_3"], .name "__chain_3"])⟩ := by
  have unwritten : "@chain" ∉ Expr.namesOf [.call (.name "__chain_1") [],
      .block [.marked .broadcast (.name "f"), .marked .aside (.call (.name "log") [.hole])]] := by
    decide
  have apart (counter : Nat) : "@chain" ≠ Supply.nameAt "__chain_" counter := by
    intro same
    have first := congrArg (·.toList.head?) same
    simp [Supply.nameAt] at first
  exact ⟨unwritten, expand_pipeline_eq_transformInvocation unwritten apart, by cbv⟩

end Config

end Pipelines
