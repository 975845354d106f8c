import Pipelines.Expansion

namespace Pipelines

/-- Holds of trees in turn: each starts from the supply that the one before it has left. -/
inductive InTurn (R : Expr → Supply → Expr → Supply → Prop) :
    List Expr → Supply → List Expr → Supply → Prop where
  | nil (supply : Supply) : InTurn R [] supply [] supply
  | cons (head : R e supply e' middle) (tail : InTurn R es middle es' rest) :
      InTurn R (e :: es) supply (e' :: es') rest

/-- Successful expansion of a tree. -/
inductive Expands (invocation : String) : Expr → Supply → Expr → Supply → Prop where
  | name (x : String) (supply : Supply) : Expands invocation (.name x) supply (.name x) supply
  | hole (supply : Supply) : Expands invocation .hole supply .hole supply
  | raw (payload : String) (supply : Supply) :
      Expands invocation (.raw payload) supply (.raw payload) supply
  | call (plain : callee.name? ≠ some invocation)
      (head : Expands invocation callee supply callee' middle)
      (tail : InTurn (Expands invocation) args middle args' rest) :
      Expands invocation (.call callee args) supply (.call callee' args') rest
  | assign (first : Expands invocation target supply target' middle)
      (second : Expands invocation value middle value' rest) :
      Expands invocation (.assign target value) supply (.assign target' value') rest
  | block (inside : InTurn (Expands invocation) lines supply lines' rest) :
      Expands invocation (.block lines) supply (.block lines') rest
  | marked {inner inner' : Expr} (tag : Tag)
      (inside : Expands invocation inner supply inner' rest) :
      Expands invocation (.marked tag inner) supply (.marked tag inner') rest
  | pipeline (accepted : threadArguments invocation args supply = .ok (pipeline, threaded, middle))
      (inside : Expands invocation threaded.toExpr middle expanded rest) :
      Expands invocation (.call (.name invocation) args) supply expanded rest

namespace Traced

theorem outcome_bind (first : Traced α) (next : α → Traced β) :
    (first >>= next).outcome = first.outcome >>= fun value => (next value).outcome := by
  cases done : first.outcome with
  | error cause => simp [andThen, done, bind, Except.bind]
  | ok value => simp [andThen, done, bind, Except.bind]

theorem outcome_bind_eq_ok {first : Traced α} {next : α → Traced β} {result : β} :
    (first >>= next).outcome = .ok result ↔
      ∃ value, first.outcome = .ok value ∧ (next value).outcome = .ok result := by
  rw [outcome_bind, bind_eq_ok]

theorem outcome_pure (value : α) : (pure value : Traced α).outcome = .ok value := rfl

theorem outcome_bind_pure_eq_error {first : Traced α} {result : α → β} {cause : Error} :
    (first >>= fun value => pure (result value)).outcome = .error cause ↔
      first.outcome = .error cause := by
  rw [outcome_bind, bind_eq_error]
  simp [outcome_pure]

theorem events_bind_pure (first : Traced α) (result : α → β) :
    (first >>= fun value => pure (result value)).events = first.events := by
  rw [bind_eq, andThen]
  cases first.outcome with
  | error cause => rfl
  | ok value => exact List.append_nil _

end Traced

variable {invocation : String}

theorem Expands.call_iff {callee expanded : Expr} {args : List Expr} {supply rest : Supply}
    (plain : callee.name? ≠ some invocation) :
    Expands invocation (.call callee args) supply expanded rest ↔
      ∃ callee' middle args', Expands invocation callee supply callee' middle ∧
        InTurn (Expands invocation) args middle args' rest ∧ expanded = .call callee' args' := by
  constructor
  · intro run
    cases run with
    | call _ head tail => exact ⟨_, _, _, head, tail, rfl⟩
    | pipeline => exact absurd rfl plain
  · intro parts
    obtain ⟨callee', middle, args', head, tail, rfl⟩ := parts
    exact .call plain head tail

theorem Expands.pipeline_iff {expanded : Expr} {args : List Expr} {supply rest : Supply} :
    Expands invocation (.call (.name invocation) args) supply expanded rest ↔
      ∃ pipeline threaded middle,
        threadArguments invocation args supply = .ok (pipeline, threaded, middle) ∧
        Expands invocation threaded.toExpr middle expanded rest := by
  constructor
  · intro run
    cases run with
    | call plain => exact absurd rfl plain
    | pipeline accepted inside => exact ⟨_, _, _, accepted, inside⟩
  · intro parts
    obtain ⟨pipeline, threaded, middle, accepted, inside⟩ := parts
    exact .pipeline accepted inside

theorem Expands.assign_iff {target value expanded : Expr} {supply rest : Supply} :
    Expands invocation (.assign target value) supply expanded rest ↔
      ∃ target' middle value', Expands invocation target supply target' middle ∧
        Expands invocation value middle value' rest ∧ expanded = .assign target' value' := by
  constructor
  · intro run
    cases run with
    | assign first second => exact ⟨_, _, _, first, second, rfl⟩
  · intro parts
    obtain ⟨target', middle, value', first, second, rfl⟩ := parts
    exact .assign first second

theorem Expands.block_iff {lines : List Expr} {expanded : Expr} {supply rest : Supply} :
    Expands invocation (.block lines) supply expanded rest ↔
      ∃ lines', InTurn (Expands invocation) lines supply lines' rest ∧ expanded = .block lines' := by
  constructor
  · intro run
    cases run with
    | block inside => exact ⟨_, inside, rfl⟩
  · intro parts
    obtain ⟨lines', inside, rfl⟩ := parts
    exact .block inside

theorem Expands.marked_iff {tag : Tag} {inner expanded : Expr} {supply rest : Supply} :
    Expands invocation (.marked tag inner) supply expanded rest ↔
      ∃ inner', Expands invocation inner supply inner' rest ∧ expanded = .marked tag inner' := by
  constructor
  · intro run
    cases run with
    | marked _ inside => exact ⟨_, inside, rfl⟩
  · intro parts
    obtain ⟨inner', inside, rfl⟩ := parts
    exact .marked tag inside

section

variable {R : Expr → Supply → Expr → Supply → Prop} {es fs es' fs' both : List Expr}
  {supply middle rest : Supply}

theorem InTurn.cons_iff {e : Expr} :
    InTurn R (e :: es) supply both rest ↔
      ∃ e' middle es', R e supply e' middle ∧ InTurn R es middle es' rest ∧ both = e' :: es' := by
  constructor
  · intro run
    cases run with
    | cons head tail => exact ⟨_, _, _, head, tail, rfl⟩
  · intro parts
    obtain ⟨e', middle, es', head, tail, rfl⟩ := parts
    exact .cons head tail

theorem InTurn.imp {S : Expr → Supply → Expr → Supply → Prop} (run : InTurn R es supply es' rest)
    (weaker : ∀ e before e' after, R e before e' after → S e before e' after) :
    InTurn S es supply es' rest := by
  induction run with
  | nil supply => exact .nil supply
  | cons head _ ih => exact .cons (weaker _ _ _ _ head) ih

theorem InTurn.forget {P : ∀ e before e' after, R e before e' after → Prop}
    (run : InTurn (fun e before e' after => ∃ step, P e before e' after step) es supply es' rest) :
    InTurn R es supply es' rest :=
  run.imp fun _ _ _ _ known => known.elim fun step _ => step

theorem InTurn.append (first : InTurn R es supply es' middle)
    (second : InTurn R fs middle fs' rest) : InTurn R (es ++ fs) supply (es' ++ fs') rest := by
  induction first with
  | nil => exact second
  | cons head _ ih => exact .cons head (ih second)

theorem InTurn.split (run : InTurn R (es ++ fs) supply both rest) :
    ∃ es' fs' middle, InTurn R es supply es' middle ∧ InTurn R fs middle fs' rest ∧
      both = es' ++ fs' := by
  induction es generalizing supply both with
  | nil => exact ⟨[], both, supply, .nil supply, run, rfl⟩
  | cons e es ih =>
      obtain ⟨e', middle, others, head, tail, rfl⟩ := InTurn.cons_iff.mp run
      obtain ⟨es', fs', last, first, second, rfl⟩ := ih tail
      exact ⟨e' :: es', fs', last, .cons head first, second, rfl⟩

theorem InTurn.at_mem {e : Expr} (run : InTurn R es supply es' rest) (member : e ∈ es) :
    ∃ before before' after e' middle later, es = before ++ e :: after ∧
      InTurn R before supply before' middle ∧ R e middle e' later ∧ e' ∈ es' := by
  obtain ⟨before, after, rfl⟩ := List.append_of_mem member
  obtain ⟨before', _, middle, earlier, following, rfl⟩ := run.split
  obtain ⟨e', later, after', here, _, rfl⟩ := InTurn.cons_iff.mp following
  exact ⟨before, before', after, e', middle, later, rfl, earlier, here, by simp⟩

theorem InTurn.at_result {e' : Expr} (run : InTurn R es supply es' rest) (member : e' ∈ es') :
    ∃ before before' after e middle later, es = before ++ e :: after ∧
      InTurn R before supply before' middle ∧ R e middle e' later := by
  induction run with
  | nil => cases member
  | cons head tail ih =>
      rcases List.mem_cons.mp member with rfl | among
      · exact ⟨[], [], _, _, _, _, rfl, .nil _, head⟩
      · obtain ⟨before, before', after, e, middle, later, rfl, earlier, here⟩ := ih among
        exact ⟨_ :: before, _ :: before', after, e, middle, later, rfl, .cons head earlier, here⟩

end

/-- Induction on an expansion, with what is to be shown known of all parts in turn. -/
@[elab_as_elim]
theorem Expands.induction
    {motive : ∀ e supply expanded rest, Expands invocation e supply expanded rest → Prop}
    (name : ∀ x supply, motive _ _ _ _ (.name x supply))
    (hole : ∀ supply, motive _ _ _ _ (.hole supply))
    (raw : ∀ payload supply, motive _ _ _ _ (.raw payload supply))
    (call : ∀ {callee callee' args args' supply middle rest}
      (plain : callee.name? ≠ some invocation)
      (head : Expands invocation callee supply callee' middle)
      (tail : InTurn (Expands invocation) args middle args' rest), motive _ _ _ _ head →
      InTurn (fun e before e' after => ∃ run, motive e before e' after run) args middle args' rest →
      motive _ _ _ _ (.call plain head tail))
    (assign : ∀ {target target' value value' supply middle rest}
      (first : Expands invocation target supply target' middle)
      (second : Expands invocation value middle value' rest), motive _ _ _ _ first →
      motive _ _ _ _ second → motive _ _ _ _ (.assign first second))
    (block : ∀ {lines lines' supply rest} (inside : InTurn (Expands invocation) lines supply lines' rest),
      InTurn (fun e before e' after => ∃ run, motive e before e' after run) lines supply lines' rest →
      motive _ _ _ _ (.block inside))
    (marked : ∀ {inner inner' supply rest} tag
      (inside : Expands invocation inner supply inner' rest), motive _ _ _ _ inside →
      motive _ _ _ _ (.marked tag inside))
    (pipeline : ∀ {args pipeline threaded expanded supply middle rest}
      (accepted : threadArguments invocation args supply = .ok (pipeline, threaded, middle))
      (inside : Expands invocation threaded.toExpr middle expanded rest), motive _ _ _ _ inside →
      motive _ _ _ _ (.pipeline accepted inside))
    {e : Expr} {supply : Supply} {expanded : Expr} {rest : Supply}
    (run : Expands invocation e supply expanded rest) : motive e supply expanded rest run := by
  refine @Expands.rec invocation motive
    (fun es before es' after _ =>
      InTurn (fun e before e' after => ∃ run, motive e before e' after run) es before es' after)
    name hole raw ?call assign ?block marked pipeline ?nil ?cons e supply expanded rest run
  case call => exact fun plain head tail first others => call plain head tail first others
  case block => exact fun inside others => block inside others
  case nil => exact fun supply => .nil supply
  case cons => exact fun head _ first others => .cons ⟨head, first⟩ others

theorem Expr.isInvocation_iff {e : Expr} :
    e.isInvocation invocation = true ↔ ∃ args, e = .call (.name invocation) args := by
  cases e <;> simp [isInvocation]

theorem Expr.isInvocation_call_eq_false {callee : Expr} {args : List Expr} :
    (Expr.call callee args).isInvocation invocation = false ↔ callee.name? ≠ some invocation := by
  simp [isInvocation]

theorem Expr.expand_call {callee : Expr} (plain : callee.name? ≠ some invocation)
    (args : List Expr) (supply : Supply) :
    (Expr.call callee args).expand invocation supply = (do
      let (callee, supply) ← callee.expand invocation supply
      let (args, supply) ← Expr.expandAll invocation args supply
      return (.call callee args, supply)) := by
  rw [Expr.expand, if_neg plain]

theorem Expr.expand_accepted {args : List Expr} {supply middle : Supply} {pipeline : Pipeline}
    {threaded : Threaded}
    (accepted : threadArguments invocation args supply = .ok (pipeline, threaded, middle)) :
    (Expr.call (.name invocation) args).expand invocation supply = (do
      Traced.report (pipeline.events invocation threaded)
      let (statements, supply) ← expandStatements invocation threaded.statements middle
      let (final, supply) ← threaded.final.expand invocation supply
      return (Threaded.toExpr ⟨statements, final⟩, supply)) := by
  rw [Expr.expand, if_pos (Expr.name?_eq_some.mpr rfl)]
  split
  · rename_i refused
    rw [accepted] at refused
    cases refused
  · rename_i again
    rw [accepted] at again
    cases again
    rfl

theorem Expr.expand_refused {args : List Expr} {supply : Supply} {cause : Error}
    (refused : threadArguments invocation args supply = .error cause) :
    (Expr.call (.name invocation) args).expand invocation supply = .fail cause := by
  rw [Expr.expand, if_pos (Expr.name?_eq_some.mpr rfl)]
  split
  · rename_i again
    rw [refused] at again
    cases again
    rfl
  · rename_i accepted
    rw [refused] at accepted
    cases accepted

theorem Expr.outcome_expand_accepted {args : List Expr} {supply middle rest : Supply}
    {pipeline : Pipeline} {threaded : Threaded} {expanded : Expr}
    (accepted : threadArguments invocation args supply = .ok (pipeline, threaded, middle)) :
    ((Expr.call (.name invocation) args).expand invocation supply).outcome =
        .ok (expanded, rest) ↔
      ∃ statements final after,
        (expandStatements invocation threaded.statements middle).outcome =
          .ok (statements, after) ∧
        (threaded.final.expand invocation after).outcome = .ok (final, rest) ∧
        expanded = Threaded.toExpr ⟨statements, final⟩ := by
  rw [Expr.expand_accepted accepted]
  simp only [Traced.outcome_bind_eq_ok, Traced.report, Traced.outcome_pure, Prod.exists]
  grind

/-- The lines of a threaded pipeline expand like its statements, each into the line of the same
statement. -/
def StatementsExpand (invocation : String) (statements : List Statement) (supply : Supply) : Prop :=
  ∀ lines rest, InTurn (Expands invocation) (statements.map Statement.toExpr) supply lines rest ↔
    ∃ statements', (expandStatements invocation statements supply).outcome =
      .ok (statements', rest) ∧ lines = statements'.map Statement.toExpr

theorem expandStatements_cons_ok {statement : Statement} {statements statements' : List Statement}
    {supply rest : Supply}
    (done : (expandStatements invocation (statement :: statements) supply).outcome =
      .ok (statements', rest)) :
    ∃ value others, statements' = ⟨statement.binding, value⟩ :: others := by
  rw [expandStatements] at done
  simp only [Traced.outcome_bind_eq_ok, Traced.outcome_pure, Prod.exists] at done
  obtain ⟨value, _, _, others, _, _, built⟩ := done
  cases built
  exact ⟨value, others, rfl⟩

theorem Expands.statement_iff {statement : Statement} {line : Expr} {supply rest : Supply} :
    Expands invocation statement.toExpr supply line rest ↔
      ∃ value, Expands invocation statement.value supply value rest ∧
        line = Statement.toExpr ⟨statement.binding, value⟩ := by
  obtain ⟨binding, value⟩ := statement
  cases named : binding.name? with
  | none => simp [Statement.toExpr, named]
  | some x =>
      simp only [Statement.toExpr, named]
      constructor
      · intro run
        cases run with
        | assign first second => cases first; exact ⟨_, second, rfl⟩
      · intro parts
        obtain ⟨value', run, rfl⟩ := parts
        exact .assign (.name x supply) run

theorem Expands.toExpr_iff {statements : List Statement} {final expanded : Expr} {supply rest : Supply}
    (lines : StatementsExpand invocation statements supply) :
    Expands invocation (Threaded.toExpr ⟨statements, final⟩) supply expanded rest ↔
      ∃ statements' final' middle,
        (expandStatements invocation statements supply).outcome = .ok (statements', middle) ∧
        Expands invocation final middle final' rest ∧
        expanded = Threaded.toExpr ⟨statements', final'⟩ := by
  cases statements with
  | nil =>
      constructor
      · intro run
        exact ⟨[], expanded, supply, by rw [expandStatements]; rfl, run, rfl⟩
      · intro parts
        obtain ⟨statements', final', middle, none, run, built⟩ := parts
        rw [expandStatements] at none
        cases none
        exact built ▸ run
  | cons statement statements =>
      constructor
      · intro run
        cases run with
        | block inside =>
            obtain ⟨first, last, middle, begun, ended, rfl⟩ := inside.split
            obtain ⟨statements', done, rfl⟩ := (lines _ _).mp begun
            cases ended with
            | cons run none =>
                cases none
                refine ⟨statements', _, middle, done, run, ?_⟩
                obtain ⟨value, others, rfl⟩ := expandStatements_cons_ok done
                rfl
      · intro parts
        obtain ⟨statements', final', middle, done, run, rfl⟩ := parts
        have begun := (lines _ _).mpr ⟨statements', done, rfl⟩
        obtain ⟨value, others, rfl⟩ := expandStatements_cons_ok done
        exact .block (begun.append (.cons run (.nil rest)))

/-- The relation holds of a tree exactly when its expansion succeeds, and so for several trees and
for statements. -/
theorem expands_iff :
    (∀ e supply, ∀ expanded rest, Expands invocation e supply expanded rest ↔
      (e.expand invocation supply).outcome = .ok (expanded, rest)) ∧
    (∀ es supply, ∀ expanded rest, InTurn (Expands invocation) es supply expanded rest ↔
      (Expr.expandAll invocation es supply).outcome = .ok (expanded, rest)) ∧
    (∀ statements supply, StatementsExpand invocation statements supply) := by
  refine Expr.expand.mutual_induct invocation _ _ _ ?refused ?pipeline ?call ?assign ?block
    ?marked ?name ?hole ?raw ?nil ?cons ?none ?more
  case refused =>
    intro supply callee args named cause refused expanded rest
    cases Expr.name?_eq_some.mp named
    rw [Expr.expand_refused refused, Expands.pipeline_iff, refused]
    simp [Traced.fail]
  case pipeline =>
    intro supply callee args named pipeline threaded middle accepted statements final expanded rest
    cases Expr.name?_eq_some.mp named
    rw [Expr.outcome_expand_accepted accepted, Expands.pipeline_iff, accepted]
    simp only [← final, ← Expands.toExpr_iff statements]
    constructor
    · intro parts
      obtain ⟨_, _, _, again, inside⟩ := parts
      cases again
      exact inside
    · intro inside
      exact ⟨pipeline, threaded, middle, rfl, inside⟩
  case call =>
    intro supply callee args plain head tail expanded rest
    rw [Expr.expand_call plain, Expands.call_iff plain]
    simp only [Traced.outcome_bind_eq_ok, Traced.outcome_pure, Prod.exists, ← head, ← tail]
    grind
  case assign =>
    intro supply target value first second expanded rest
    rw [Expr.expand, Expands.assign_iff]
    simp only [Traced.outcome_bind_eq_ok, Traced.outcome_pure, Prod.exists, ← first, ← second]
    grind
  case block =>
    intro supply lines inside expanded rest
    rw [Expr.expand, Expands.block_iff]
    simp only [Traced.outcome_bind_eq_ok, Traced.outcome_pure, Prod.exists, ← inside]
    grind
  case marked =>
    intro supply tag inner inside expanded rest
    rw [Expr.expand, Expands.marked_iff]
    simp only [Traced.outcome_bind_eq_ok, Traced.outcome_pure, Prod.exists, ← inside]
    grind
  case name =>
    intro supply x expanded rest
    rw [Expr.expand]
    exact ⟨fun run => by cases run; rfl, fun built => by cases built; exact .name x supply⟩
  case hole =>
    intro supply expanded rest
    rw [Expr.expand]
    exact ⟨fun run => by cases run; rfl, fun built => by cases built; exact .hole supply⟩
  case raw =>
    intro supply payload expanded rest
    rw [Expr.expand]
    exact ⟨fun run => by cases run; rfl, fun built => by cases built; exact .raw payload supply⟩
  case nil =>
    intro supply expanded rest
    rw [Expr.expandAll]
    exact ⟨fun run => by cases run; rfl, fun built => by cases built; exact .nil supply⟩
  case cons =>
    intro supply e es head tail expanded rest
    rw [Expr.expandAll, InTurn.cons_iff]
    simp only [Traced.outcome_bind_eq_ok, Traced.outcome_pure, Prod.exists, ← head, ← tail]
    grind
  case none =>
    intro supply lines rest
    rw [expandStatements]
    constructor
    · intro run
      cases run
      exact ⟨[], rfl, rfl⟩
    · intro parts
      obtain ⟨statements', done, rfl⟩ := parts
      cases done
      exact .nil supply
  case more =>
    intro supply statement statements head tail lines rest
    rw [expandStatements, List.map_cons, InTurn.cons_iff]
    simp only [Traced.outcome_bind_eq_ok, Traced.outcome_pure, Prod.exists, ← head,
      Expands.statement_iff]
    constructor
    · intro parts
      obtain ⟨_, middle, _, ⟨value, run, rfl⟩, others, rfl⟩ := parts
      obtain ⟨statements', done, rfl⟩ := (tail _ _ _).mp others
      exact ⟨_, ⟨value, _, run, statements', rest, done, rfl⟩, rfl⟩
    · intro parts
      obtain ⟨_, ⟨value, middle, run, statements', _, done, built⟩, rfl⟩ := parts
      cases built
      exact ⟨_, middle, _, ⟨value, run, rfl⟩, (tail _ _ _).mpr ⟨statements', done, rfl⟩, rfl⟩

theorem Expands.outcome_iff {e expanded : Expr} {supply rest : Supply} :
    Expands invocation e supply expanded rest ↔
      (e.expand invocation supply).outcome = .ok (expanded, rest) :=
  expands_iff.1 e supply expanded rest

theorem InTurn.outcome_iff {es expanded : List Expr} {supply rest : Supply} :
    InTurn (Expands invocation) es supply expanded rest ↔
      (Expr.expandAll invocation es supply).outcome = .ok (expanded, rest) :=
  expands_iff.2.1 es supply expanded rest

theorem Expands.deterministic {e first second : Expr} {supply rest other : Supply}
    (one : Expands invocation e supply first rest)
    (two : Expands invocation e supply second other) : first = second ∧ rest = other := by
  have same := (Expands.outcome_iff.mp one).symm.trans (Expands.outcome_iff.mp two)
  simpa using same

theorem InTurn.deterministic {es first second : List Expr} {supply rest other : Supply}
    (one : InTurn (Expands invocation) es supply first rest)
    (two : InTurn (Expands invocation) es supply second other) : first = second ∧ rest = other := by
  have same := (InTurn.outcome_iff.mp one).symm.trans (InTurn.outcome_iff.mp two)
  simpa using same

end Pipelines
