import Pipelines.Proofs.Boundary
import Pipelines.Proofs.Lockstep

namespace Pipelines.Expr

variable {invocation : String}

/-- What a node carries itself. -/
inductive Label where
  | name (text : String)
  | call
  | assign
  | block
  | marked (tag : Tag)
  | hole
  | raw (payload : String)
deriving DecidableEq

/-- The root of a tree without its children. -/
def label : Expr → Label
  | .name x => .name x
  | .call _ _ => .call
  | .assign _ _ => .assign
  | .block _ => .block
  | .marked tag _ => .marked tag
  | .hole => .hole
  | .raw payload => .raw payload

/-- The part of a tree that a path leads to. -/
def at? (e : Expr) : List Nat → Option Expr
  | [] => some e
  | i :: path => e.children[i]?.bind fun child => child.at? path

/-- A path to a part that enters neither the callee of a pipeline nor an argument behind its
first. -/
inductive FreePath (invocation : String) : Expr → List Nat → Expr → Prop where
  | here (e : Expr) : FreePath invocation e [] e
  | child (enters : e.isInvocation invocation = true → i = 1) (found : e.children[i]? = some child)
      (rest : FreePath invocation child path part) : FreePath invocation e (i :: path) part

theorem FreePath.at?_eq {e part : Expr} {path : List Nat} (free : FreePath invocation e path part) :
    e.at? path = some part := by
  induction free with
  | here e => rfl
  | child _ found _ ih => rw [at?, found, Option.bind_some, ih]

theorem isHole_of_child {e child : Expr} {i : Nat} (found : e.children[i]? = some child) :
    e.isHole = false := by
  rw [isHole_eq_false_iff]
  rintro rfl
  cases found

theorem children_fill_of_plain {e : Expr} (value : Expr) (plain : e.isInvocation invocation = false)
    (solid : e.isHole = false) :
    (e.fill invocation value).children = e.children.map (·.fill invocation value) := by
  cases e with
  | call callee args =>
      rw [fill, if_neg (isInvocation_call_eq_false.mp plain), fillAll_eq_map]
      rfl
  | block lines => rw [fill, fillAll_eq_map]; rfl
  | hole => cases solid
  | _ => rfl

/-- Filling reaches the same children as a free path. -/
theorem getElem?_children_fill {e : Expr} (value : Expr) (solid : e.isHole = false) (i : Nat) :
    (e.fill invocation value).children[i]? = e.children[i]?.map fun child =>
      if e.isInvocation invocation = true → i = 1 then child.fill invocation value else child := by
  cases pipeline : e.isInvocation invocation with
  | false => simp [children_fill_of_plain value pipeline solid]
  | true =>
      obtain ⟨args, rfl⟩ := isInvocation_iff.mp pipeline
      rw [fill_pipeline, children, children]
      cases args with
      | nil => cases i <;> simp [fillFirst]
      | cons seed steps =>
          rcases i with _ | _ | i
          · simp
          · simp [fillFirst]
          · simp [fillFirst]

theorem length_children_fill {e : Expr} (value : Expr) (solid : e.isHole = false) :
    (e.fill invocation value).children.length = e.children.length := by
  cases pipeline : e.isInvocation invocation with
  | false => rw [children_fill_of_plain value pipeline solid, List.length_map]
  | true =>
      obtain ⟨args, rfl⟩ := isInvocation_iff.mp pipeline
      rw [fill_pipeline]
      cases args <;> rfl

theorem label_fill {e : Expr} (value : Expr) (solid : e.isHole = false) :
    (e.fill invocation value).label = e.label := by
  cases e with
  | hole => cases solid
  | call callee args => rw [fill]; split <;> rfl
  | _ => rfl

theorem hasHole_of_plain {e : Expr} (plain : e.isInvocation invocation = false)
    (solid : e.isHole = false) :
    e.hasHole invocation = e.children.any (hasHole invocation) := by
  cases e with
  | call callee args =>
      rw [hasHole, if_neg (isInvocation_call_eq_false.mp plain), anyHasHole_eq_any]
      rfl
  | assign target value => simp [hasHole, children]
  | block lines => exact anyHasHole_eq_any invocation lines
  | marked tag inner => simp [hasHole, children]
  | hole => cases solid
  | _ => rfl

theorem hasHole_iff_exists_child {e : Expr} :
    e.hasHole invocation = true ↔ e = .hole ∨
      ∃ i child, (e.isInvocation invocation = true → i = 1) ∧ e.children[i]? = some child ∧
        child.hasHole invocation = true := by
  cases pipeline : e.isInvocation invocation with
  | true =>
      obtain ⟨args, rfl⟩ := isInvocation_iff.mp pipeline
      rw [hasHole_pipeline]
      cases args <;> simp [firstHasHole, children]
  | false =>
      by_cases vacant : e = .hole
      · subst vacant
        simp [hasHole]
      · rw [hasHole_of_plain pipeline (isHole_eq_false_iff.mpr vacant), List.any_eq_true]
        simp only [vacant, false_or, Bool.false_eq_true, false_implies, true_and,
          List.mem_iff_getElem?, ← exists_and_right]
        exact exists_comm

theorem exists_freePath {e : Expr} (holes : e.hasHole invocation = true) :
    ∃ path, FreePath invocation e path .hole := by
  rcases hasHole_iff_exists_child.mp holes with rfl | ⟨i, child, enters, found, inside⟩
  · exact ⟨[], .here .hole⟩
  · obtain ⟨path, free⟩ := exists_freePath inside
    exact ⟨i :: path, .child enters found free⟩
termination_by e.size
decreasing_by exact size_lt_of_mem_children (List.mem_of_getElem? found)

theorem FreePath.hasHole {e part : Expr} {path : List Nat} (free : FreePath invocation e path part)
    (holes : part.hasHole invocation = true) : e.hasHole invocation = true := by
  induction free with
  | here e => exact holes
  | child enters found _ ih =>
      exact hasHole_iff_exists_child.mpr (.inr ⟨_, _, enters, found, ih holes⟩)

/-- Along a free path, filling a tree fills the part that the path leads to. -/
theorem FreePath.at?_fill {e part : Expr} {path : List Nat} (free : FreePath invocation e path part)
    (value : Expr) : (e.fill invocation value).at? path = some (part.fill invocation value) := by
  induction free with
  | here e => rfl
  | child enters found _ ih =>
      rw [at?, getElem?_children_fill value (isHole_of_child found), found, Option.map_some,
        if_pos enters, Option.bind_some, ih]

/-- Filling a tree keeps every node that is not a hole at the end of a free path. -/
theorem exists_at?_fill {e part : Expr} {path : List Nat} (value : Expr)
    (found : e.at? path = some part) (other : ¬ FreePath invocation e path .hole) :
    ∃ copy, (e.fill invocation value).at? path = some copy ∧ copy.label = part.label ∧
      copy.children.length = part.children.length := by
  induction path generalizing e with
  | nil =>
      cases found
      have solid : part.isHole = false := by
        rw [isHole_eq_false_iff]
        rintro rfl
        exact other (.here .hole)
      exact ⟨_, rfl, label_fill value solid, length_children_fill value solid⟩
  | cons i path ih =>
      obtain ⟨child, among, below⟩ := Option.bind_eq_some_iff.mp found
      rw [at?, getElem?_children_fill value (isHole_of_child among), among, Option.map_some,
        Option.bind_some]
      split
      · rename_i enters
        exact ih below fun free => other (.child enters among free)
      · exact ⟨part, below, rfl, rfl⟩

mutual

theorem fill_hole (e : Expr) : e.fill invocation .hole = e := by
  cases e with
  | call callee args =>
      simp only [fill, fill_hole callee, fillFirst_hole args, fillAll_hole args, ite_self]
  | assign target value => rw [fill, fill_hole target, fill_hole value]
  | block lines => rw [fill, fillAll_hole lines]
  | marked tag inner => rw [fill, fill_hole inner]
  | hole => rfl
  | name x => rfl
  | raw payload => rfl

theorem fillFirst_hole (es : List Expr) : fillFirst invocation es .hole = es := by
  cases es with
  | nil => rfl
  | cons e es => rw [fillFirst, fill_hole e]

theorem fillAll_hole (es : List Expr) : fillAll invocation es .hole = es := by
  cases es with
  | nil => rfl
  | cons e es => rw [fillAll, fill_hole e, fillAll_hole es]

end

/-- Filling a tree with anything but a hole shows, as long as it has a free hole. -/
theorem fill_eq_self_iff {e value : Expr} :
    e.fill invocation value = e ↔ e.hasHole invocation = false ∨ value = .hole := by
  constructor
  · intro same
    by_cases holes : e.hasHole invocation = true
    · obtain ⟨path, free⟩ := exists_freePath holes
      have filled := free.at?_fill value
      rw [same, free.at?_eq] at filled
      exact .inr (Option.some.inj filled).symm
    · exact .inl (Bool.eq_false_iff.mpr holes)
  · rintro (closed | rfl)
    · exact fill_of_not_hasHole value closed
    · exact fill_hole e

mutual

/-- Fills free holes like `fill`, but looks for one first at every node, and hands back a tree
without any as it is. -/
def fillSharing (invocation : String) (e value : Expr) : Expr :=
  if e.hasHole invocation then
    match e with
    | .hole => value
    | .call callee args =>
        if callee.name? = some invocation then
          .call callee (fillFirstSharing invocation args value)
        else
          .call (callee.fillSharing invocation value) (fillAllSharing invocation args value)
    | .assign target bound =>
        .assign (target.fillSharing invocation value) (bound.fillSharing invocation value)
    | .block lines => .block (fillAllSharing invocation lines value)
    | .marked tag inner => .marked tag (inner.fillSharing invocation value)
    | .name x => .name x
    | .raw payload => .raw payload
  else e

/-- Fills the first of several trees, unless it has no free hole. -/
def fillFirstSharing (invocation : String) (es : List Expr) (value : Expr) : List Expr :=
  match es with
  | [] => []
  | e :: es => e.fillSharing invocation value :: es

/-- Fills each of several trees that has a free hole. -/
def fillAllSharing (invocation : String) (es : List Expr) (value : Expr) : List Expr :=
  match es with
  | [] => []
  | e :: es => e.fillSharing invocation value :: fillAllSharing invocation es value

end

mutual

theorem fillSharing_eq_fill (value e : Expr) :
    e.fillSharing invocation value = e.fill invocation value := by
  unfold fillSharing
  cases holes : e.hasHole invocation with
  | false => exact (fill_of_not_hasHole value holes).symm
  | true =>
      rw [if_pos rfl]
      cases e with
      | call callee args =>
          simp only [fill, fillSharing_eq_fill value callee,
            fillFirstSharing_eq_fillFirst value args, fillAllSharing_eq_fillAll value args]
      | assign target bound =>
          simp only [fill, fillSharing_eq_fill value target, fillSharing_eq_fill value bound]
      | block lines => simp only [fill, fillAllSharing_eq_fillAll value lines]
      | marked tag inner => simp only [fill, fillSharing_eq_fill value inner]
      | hole => rfl
      | name x => rfl
      | raw payload => rfl

theorem fillFirstSharing_eq_fillFirst (value : Expr) (es : List Expr) :
    fillFirstSharing invocation es value = fillFirst invocation es value := by
  cases es with
  | nil => rfl
  | cons e es => rw [fillFirstSharing, fillFirst, fillSharing_eq_fill value e]

theorem fillAllSharing_eq_fillAll (value : Expr) (es : List Expr) :
    fillAllSharing invocation es value = fillAll invocation es value := by
  cases es with
  | nil => rfl
  | cons e es =>
      rw [fillAllSharing, fillAll, fillSharing_eq_fill value e, fillAllSharing_eq_fillAll value es]

end

/-- Filling a tree replaces its free holes and nothing else: a free path to a hole leads to the
value, and any other path to a node that carries the same. The tree stays as it is exactly if it has
no free hole or the value is one itself, and it makes no difference whether parts without free holes
are handed back untouched. -/
theorem fill_replaces_free_holes (invocation : String) (e value : Expr) :
    (e.hasHole invocation = true ↔ ∃ path, FreePath invocation e path .hole) ∧
    (∀ path, FreePath invocation e path .hole →
      (e.fill invocation value).at? path = some value) ∧
    (∀ path part, e.at? path = some part → ¬ FreePath invocation e path .hole →
      ∃ copy, (e.fill invocation value).at? path = some copy ∧ copy.label = part.label ∧
        copy.children.length = part.children.length) ∧
    (e.fill invocation value = e ↔ e.hasHole invocation = false ∨ value = .hole) ∧
    e.fillSharing invocation value = e.fill invocation value := by
  refine ⟨⟨exists_freePath, ?led⟩, ?replaced, ?kept, fill_eq_self_iff, fillSharing_eq_fill value e⟩
  case led =>
    rintro ⟨path, free⟩
    exact free.hasHole rfl
  case replaced =>
    intro path free
    exact free.at?_fill value
  case kept =>
    intro path part found other
    exact exists_at?_fill value found other

/-- In `f(_, @chain(@chain(_, g(_)), h(_)))` the hole of `f` is free and so is the seed of the inner
of the two pipelines. Those of `g` and `h` are behind a boundary. -/
theorem fill_replaces_free_holes_of_nested_pipelines :
    FreePath "@chain" (.call (.name "f") [.hole, .call (.name "@chain")
        [.call (.name "@chain") [.hole, .call (.name "g") [.hole]], .call (.name "h") [.hole]]])
      [2, 1, 1] .hole ∧
    (fill "@chain" (.call (.name "f") [.hole, .call (.name "@chain")
        [.call (.name "@chain") [.hole, .call (.name "g") [.hole]], .call (.name "h") [.hole]]])
      (.name "x")).at? [2, 1, 1] = some (.name "x") ∧
    fill "@chain" (.call (.name "f") [.hole, .call (.name "@chain")
        [.call (.name "@chain") [.hole, .call (.name "g") [.hole]], .call (.name "h") [.hole]]])
      (.name "x") =
      .call (.name "f") [.name "x", .call (.name "@chain")
        [.call (.name "@chain") [.name "x", .call (.name "g") [.hole]],
          .call (.name "h") [.hole]]] := by
  have free : FreePath "@chain" (.call (.name "f") [.hole, .call (.name "@chain")
      [.call (.name "@chain") [.hole, .call (.name "g") [.hole]], .call (.name "h") [.hole]]])
      [2, 1, 1] .hole :=
    .child (by decide) rfl (.child (fun _ => rfl) rfl (.child (fun _ => rfl) rfl (.here .hole)))
  exact ⟨free, (fill_replaces_free_holes _ _ _).2.1 _ free, by cbv⟩

end Pipelines.Expr
