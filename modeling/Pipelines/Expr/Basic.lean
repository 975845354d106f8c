namespace Pipelines

/-- A directive attached to one step of a pipeline. -/
inductive Tag where
  /-- The step is evaluated for its effect; its value does not flow on. -/
  | aside
  /-- The step applies a named function to each element. -/
  | broadcast
deriving DecidableEq

def Tag.spelling : Tag → String
  | .aside => "@aside"
  | .broadcast => "@."

inductive Expr where
  | name (text : String)
  /-- An application; the callee may be any expression. -/
  | call (callee : Expr) (args : List Expr)
  /-- An assignment. The target is an expression, so that one that is not a name can be reported. -/
  | assign (target value : Expr)
  /-- A sequence of lines. Among the steps of a pipeline it only groups them. -/
  | block (lines : List Expr)
  | marked (tag : Tag) (inner : Expr)
  /-- The place where the current value of a pipeline goes. -/
  | hole
  /-- An expression that no pass looks into. -/
  | raw (payload : String)

namespace Expr

mutual

/-- Structural equality of two trees. -/
def same : Expr → Expr → Bool
  | .name x, .name y => x == y
  | .call f xs, .call g ys => f.same g && sameAll xs ys
  | .assign s v, .assign t w => s.same t && v.same w
  | .block xs, .block ys => sameAll xs ys
  | .marked s x, .marked t y => s == t && x.same y
  | .hole, .hole => true
  | .raw p, .raw q => p == q
  | _, _ => false

def sameAll : List Expr → List Expr → Bool
  | [], [] => true
  | x :: xs, y :: ys => x.same y && sameAll xs ys
  | _, _ => false

end

mutual

theorem same_iff (a b : Expr) : a.same b = true ↔ a = b := by
  cases a with
  | name x => cases b <;> simp [same]
  | call f xs => cases b <;> simp [same, same_iff f, sameAll_iff xs]
  | assign s v => cases b <;> simp [same, same_iff s, same_iff v]
  | block xs => cases b <;> simp [same, sameAll_iff xs]
  | marked s x => cases b <;> simp [same, same_iff x]
  | hole => cases b <;> simp [same]
  | raw p => cases b <;> simp [same]

theorem sameAll_iff (as bs : List Expr) : sameAll as bs = true ↔ as = bs := by
  cases as with
  | nil => cases bs <;> simp [sameAll]
  | cons a as => cases bs <;> simp [sameAll, same_iff a, sameAll_iff as]

end

instance : DecidableEq Expr := fun a b => decidable_of_iff _ (same_iff a b)

def name? : Expr → Option String
  | .name x => some x
  | _ => none

@[simp] theorem name?_eq_some {e : Expr} {x : String} : e.name? = some x ↔ e = .name x := by
  cases e <;> simp [name?]

def isHole : Expr → Bool
  | .hole => true
  | _ => false

/-- Whether an expression is a pipeline: a call of the name that introduces pipelines. -/
def isInvocation (invocation : String) : Expr → Bool
  | .call callee _ => callee.name? == some invocation
  | _ => false

/-- The order of two bare names by their code points. Other expressions have none. -/
def compareNames? : Expr → Expr → Option Ordering
  | .name x, .name y => some (if x < y then .lt else if x = y then .eq else .gt)
  | _, _ => none

/-- The direct parts of an expression in reading order. -/
def children : Expr → List Expr
  | .call callee args => callee :: args
  | .assign target value => [target, value]
  | .block lines => lines
  | .marked _ inner => [inner]
  | .name _ | .hole | .raw _ => []

mutual

def size : Expr → Nat
  | .name _ | .hole | .raw _ => 1
  | .call callee args => 1 + callee.size + totalSize args
  | .assign target value => 1 + target.size + value.size
  | .block lines => 1 + totalSize lines
  | .marked _ inner => 1 + inner.size

def totalSize : List Expr → Nat
  | [] => 0
  | e :: es => e.size + totalSize es

end

theorem size_pos (e : Expr) : 0 < e.size := by
  cases e <;> simp only [size] <;> omega

@[simp] theorem totalSize_append (es fs : List Expr) :
    totalSize (es ++ fs) = totalSize es + totalSize fs := by
  induction es with
  | nil => simp [totalSize]
  | cons e es ih => simp only [List.cons_append, totalSize, ih]; omega

mutual

/-- Every name that occurs in a tree, in reading order and as often as it occurs. -/
def names : Expr → List String
  | .name x => [x]
  | .call callee args => callee.names ++ namesOf args
  | .assign target value => target.names ++ value.names
  | .block lines => namesOf lines
  | .marked _ inner => inner.names
  | .hole | .raw _ => []

def namesOf : List Expr → List String
  | [] => []
  | e :: es => e.names ++ namesOf es

end

theorem namesOf_eq_flatMap (es : List Expr) : namesOf es = es.flatMap names := by
  induction es with
  | nil => rfl
  | cons e es ih => simp [namesOf, ih]

theorem namesOf_append (es fs : List Expr) : namesOf (es ++ fs) = namesOf es ++ namesOf fs := by
  simp only [namesOf_eq_flatMap, List.flatMap_append]

end Expr

end Pipelines
