import Pipelines.Proofs.Filling
import Pipelines.Proofs.Nodes
import Pipelines.Proofs.Threaded

namespace Pipelines

namespace Expr

variable {invocation : String}

/-- What an assignment assigns to. -/
def target? : Expr → Option Expr
  | .assign target _ => some target
  | _ => none

/-- The targets of all assignments in a tree. -/
def targets (e : Expr) : List Expr :=
  e.nodes.filterMap target?

def targetsOf (es : List Expr) : List Expr :=
  (nodesOf es).filterMap target?

@[simp] theorem targets_name (x : String) : (Expr.name x).targets = [] := rfl

@[simp] theorem targets_hole : Expr.hole.targets = [] := rfl

@[simp] theorem targets_raw (payload : String) : (Expr.raw payload).targets = [] := rfl

@[simp] theorem targets_call (callee : Expr) (args : List Expr) :
    (Expr.call callee args).targets = callee.targets ++ targetsOf args := by
  rw [targets, nodes, List.filterMap_cons_none rfl, List.filterMap_append]
  rfl

@[simp] theorem targets_assign (target value : Expr) :
    (Expr.assign target value).targets = target :: (target.targets ++ value.targets) := by
  simp [targets, nodes, target?]

@[simp] theorem targets_block (lines : List Expr) :
    (Expr.block lines).targets = targetsOf lines := by
  rw [targets, nodes, List.filterMap_cons_none rfl]
  rfl

@[simp] theorem targets_marked (tag : Tag) (inner : Expr) :
    (Expr.marked tag inner).targets = inner.targets := by
  rw [targets, nodes, List.filterMap_cons_none rfl]
  rfl

@[simp] theorem targetsOf_nil : targetsOf [] = [] := rfl

@[simp] theorem targetsOf_cons (e : Expr) (es : List Expr) :
    targetsOf (e :: es) = e.targets ++ targetsOf es := by
  simp [targetsOf, targets, nodesOf]

theorem targetsOf_eq_flatMap (es : List Expr) : targetsOf es = es.flatMap targets := by
  induction es with
  | nil => rfl
  | cons e es ih => simp [ih]

theorem targetsOf_append (es fs : List Expr) :
    targetsOf (es ++ fs) = targetsOf es ++ targetsOf fs := by
  simp only [targetsOf_eq_flatMap, List.flatMap_append]

theorem targetsOf_flatten (es : List Expr) : targetsOf (flatten es) = targetsOf es := by
  rw [targetsOf_eq_flatMap, targetsOf_eq_flatMap]
  refine flatMap_flatten (fun lines => ?_) es
  rw [targets_block, targetsOf_eq_flatMap]

mutual

theorem names_subset_of_mem_targets {target : Expr} (e : Expr) (member : target ∈ e.targets) :
    target.names ⊆ e.names := by
  cases e with
  | call callee args =>
      rw [targets_call, List.mem_append] at member
      rcases member with inCallee | inArgs
      · exact List.subset_append_of_subset_left _ (names_subset_of_mem_targets callee inCallee)
      · exact List.subset_append_of_subset_right _ (names_subset_of_mem_targetsOf args inArgs)
  | assign place value =>
      rw [targets_assign, List.mem_cons, List.mem_append] at member
      rcases member with rfl | inTarget | inValue
      · exact List.subset_append_left _ _
      · exact List.subset_append_of_subset_left _ (names_subset_of_mem_targets place inTarget)
      · exact List.subset_append_of_subset_right _ (names_subset_of_mem_targets value inValue)
  | block lines => exact names_subset_of_mem_targetsOf lines (by simpa using member)
  | marked tag inner => exact names_subset_of_mem_targets inner (by simpa using member)
  | _ => cases member

theorem names_subset_of_mem_targetsOf {target : Expr} (es : List Expr)
    (member : target ∈ targetsOf es) : target.names ⊆ namesOf es := by
  cases es with
  | nil => cases member
  | cons e es =>
      rw [targetsOf_cons, List.mem_append] at member
      rcases member with first | later
      · exact List.subset_append_of_subset_left _ (names_subset_of_mem_targets e first)
      · exact List.subset_append_of_subset_right _ (names_subset_of_mem_targetsOf es later)

end

theorem not_name_mem_targets {e : Expr} {x : String} (absent : x ∉ e.names) :
    .name x ∉ e.targets :=
  fun member => absent (names_subset_of_mem_targets e member (List.mem_singleton_self x))

theorem not_name_mem_targetsOf {es : List Expr} {x : String} (absent : x ∉ namesOf es) :
    .name x ∉ targetsOf es :=
  fun member => absent (names_subset_of_mem_targetsOf es member (List.mem_singleton_self x))

mutual

/-- The targets of all assignments in a tree, each with whether filling the tree reaches it. -/
def reachedTargets (invocation : String) : Expr → List (Expr × Bool)
  | .call callee args =>
      if callee.name? = some invocation then reachedTargetsOfFirst invocation args
      else callee.reachedTargets invocation ++ reachedTargetsOf invocation args
  | .assign target value =>
      (target, true) :: (target.reachedTargets invocation ++ value.reachedTargets invocation)
  | .block lines => reachedTargetsOf invocation lines
  | .marked _ inner => inner.reachedTargets invocation
  | .name _ | .hole | .raw _ => []

def reachedTargetsOfFirst (invocation : String) : List Expr → List (Expr × Bool)
  | [] => []
  | e :: es => e.reachedTargets invocation ++ (targetsOf es).map (·, false)

def reachedTargetsOf (invocation : String) : List Expr → List (Expr × Bool)
  | [] => []
  | e :: es => e.reachedTargets invocation ++ reachedTargetsOf invocation es

end

mutual

theorem map_fst_reachedTargets (invocation : String) (e : Expr) :
    (e.reachedTargets invocation).map Prod.fst = e.targets := by
  cases e with
  | call callee args =>
      by_cases pipeline : callee.name? = some invocation
      · have named := name?_eq_some.mp pipeline
        simp [reachedTargets, named, map_fst_reachedTargetsOfFirst invocation args]
      · simp [reachedTargets, pipeline, map_fst_reachedTargets invocation callee,
          map_fst_reachedTargetsOf invocation args]
  | assign target value =>
      simp [reachedTargets, map_fst_reachedTargets invocation target,
        map_fst_reachedTargets invocation value]
  | block lines => simp [reachedTargets, map_fst_reachedTargetsOf invocation lines]
  | marked tag inner => simp [reachedTargets, map_fst_reachedTargets invocation inner]
  | _ => rfl

theorem map_fst_reachedTargetsOfFirst (invocation : String) (es : List Expr) :
    (reachedTargetsOfFirst invocation es).map Prod.fst = targetsOf es := by
  cases es with
  | nil => rfl
  | cons e es =>
      have kept : Prod.fst ∘ (·, false) = (id : Expr → Expr) := rfl
      simp [reachedTargetsOfFirst, map_fst_reachedTargets invocation e, kept]

theorem map_fst_reachedTargetsOf (invocation : String) (es : List Expr) :
    (reachedTargetsOf invocation es).map Prod.fst = targetsOf es := by
  cases es with
  | nil => rfl
  | cons e es =>
      simp [reachedTargetsOf, map_fst_reachedTargets invocation e,
        map_fst_reachedTargetsOf invocation es]

end

def fillReached (invocation x : String) : Expr × Bool → Expr
  | (target, true) => target.fill invocation (.name x)
  | (target, false) => target

mutual

/-- Filling a tree fills the targets that it reaches and leaves the others as they are. -/
theorem targets_fill (invocation x : String) (e : Expr) :
    (e.fill invocation (.name x)).targets =
      (e.reachedTargets invocation).map (fillReached invocation x) := by
  cases e with
  | call callee args =>
      by_cases pipeline : callee.name? = some invocation
      · have named := name?_eq_some.mp pipeline
        simp [fill, reachedTargets, named, targetsOf_fillFirst invocation x args]
      · simp [fill, reachedTargets, pipeline, targets_fill invocation x callee,
          targetsOf_fillAll invocation x args]
  | assign target value =>
      simp [fill, reachedTargets, fillReached, targets_fill invocation x target,
        targets_fill invocation x value]
  | block lines => simp [fill, reachedTargets, targetsOf_fillAll invocation x lines]
  | marked tag inner => simp [fill, reachedTargets, targets_fill invocation x inner]
  | _ => rfl

theorem targetsOf_fillFirst (invocation x : String) (es : List Expr) :
    targetsOf (fillFirst invocation es (.name x)) =
      (reachedTargetsOfFirst invocation es).map (fillReached invocation x) := by
  cases es with
  | nil => rfl
  | cons e es =>
      have kept : fillReached invocation x ∘ (·, false) = id := rfl
      simp [fillFirst, reachedTargetsOfFirst, targets_fill invocation x e, kept]

theorem targetsOf_fillAll (invocation x : String) (es : List Expr) :
    targetsOf (fillAll invocation es (.name x)) =
      (reachedTargetsOf invocation es).map (fillReached invocation x) := by
  cases es with
  | nil => rfl
  | cons e es =>
      simp [fillAll, reachedTargetsOf, targets_fill invocation x e,
        targetsOf_fillAll invocation x es]

end

/-- The targets that filling a tree reaches. -/
def freeTargets (invocation : String) (e : Expr) : List Expr :=
  ((e.reachedTargets invocation).filter Prod.snd).map Prod.fst

theorem mem_freeTargets {e target : Expr} :
    target ∈ e.freeTargets invocation ↔ (target, true) ∈ e.reachedTargets invocation := by
  simp [freeTargets]

theorem freeTargets_subset (invocation : String) (e : Expr) :
    e.freeTargets invocation ⊆ e.targets := by
  intro target free
  rw [← map_fst_reachedTargets invocation e]
  exact List.mem_map_of_mem (f := Prod.fst) (mem_freeTargets.mp free)

theorem mem_targets_fill {e target : Expr} {x : String}
    (member : target ∈ (e.fill invocation (.name x)).targets) :
    target ∈ e.targets ∨
      ∃ free ∈ e.freeTargets invocation, target = free.fill invocation (.name x) := by
  rw [targets_fill, List.mem_map] at member
  obtain ⟨⟨original, reached⟩, among, rfl⟩ := member
  cases reached with
  | false =>
      refine .inl ?_
      rw [← map_fst_reachedTargets invocation e]
      exact List.mem_map_of_mem (f := Prod.fst) among
  | true => exact .inr ⟨original, mem_freeTargets.mpr among, rfl⟩

/-- The name that fills a tree is a target afterwards if it was one before, or if a free hole was. -/
theorem name_mem_targets_fill {e : Expr} {x : String} :
    .name x ∈ (e.fill invocation (.name x)).targets ↔
      .name x ∈ e.targets ∨ .hole ∈ e.freeTargets invocation := by
  constructor
  · intro member
    rcases mem_targets_fill member with kept | ⟨free, reached, filled⟩
    · exact .inl kept
    cases free with
    | name y =>
        cases filled
        exact .inl (freeTargets_subset invocation e reached)
    | hole => exact .inr reached
    | call callee args => simp only [fill] at filled; split at filled <;> cases filled
    | _ => cases filled
  · intro member
    rw [targets_fill, List.mem_map]
    rcases member with written | free
    · rw [← map_fst_reachedTargets invocation e, List.mem_map] at written
      obtain ⟨⟨_, reached⟩, among, rfl⟩ := written
      exact ⟨_, among, by cases reached <;> rfl⟩
    · exact ⟨_, mem_freeTargets.mp free, rfl⟩

theorem targets_withFirstArgument (e : Expr) (x : String) :
    (e.withFirstArgument (.name x)).targets = e.targets := by
  cases e with
  | assign target value => simp [withFirstArgument, targets_withFirstArgument value x]
  | _ => simp [withFirstArgument]

theorem targets_feed (invocation x : String) (e : Expr) :
    (e.feed invocation (.name x)).targets = (e.fill invocation (.name x)).targets := by
  by_cases holes : e.hasHole invocation = true
  · rw [feed, if_pos holes]
  · rw [feed, if_neg holes, targets_withFirstArgument,
      fill_of_not_hasHole _ (Bool.eq_false_iff.mpr holes)]

end Expr

/-- A function to broadcast is a bare name, which has no targets and nothing to fill. -/
theorem Step.targets_value {index : Nat} {e : Expr} {step : Step}
    (read : Step.ofExpr index e = .ok step) (invocation x : String) :
    (step.value invocation x).targets = (step.expr.fill invocation (.name x)).targets := by
  unfold Step.value
  by_cases broadcast : step.kind.isBroadcast = true
  · obtain ⟨f, named⟩ := Step.name_of_broadcast read broadcast
    simp [broadcast, named, Expr.fill]
  · rw [if_neg broadcast, Expr.targets_feed]

end Pipelines
