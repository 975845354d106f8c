import Pipelines.Expr.Basic

namespace Pipelines.Expr

/-!
# Holes

A hole belongs to the innermost pipeline around it. A call of the name that
introduces pipelines is therefore a boundary: only its first argument, the
seed of the inner pipeline, still belongs to the pipeline outside; its callee
and its other arguments do not. A hole that is not behind such a boundary is
free.
-/

mutual

/-- Whether a tree has a free hole. -/
def hasHole (invocation : String) : Expr → Bool
  | .hole => true
  | .call callee args =>
      if callee.name? = some invocation then firstHasHole invocation args
      else callee.hasHole invocation || anyHasHole invocation args
  | .assign target value => target.hasHole invocation || value.hasHole invocation
  | .block lines => anyHasHole invocation lines
  | .marked _ inner => inner.hasHole invocation
  | .name _ | .raw _ => false

def firstHasHole (invocation : String) : List Expr → Bool
  | [] => false
  | e :: _ => e.hasHole invocation

def anyHasHole (invocation : String) : List Expr → Bool
  | [] => false
  | e :: es => e.hasHole invocation || anyHasHole invocation es

end

mutual

/-- The tree with a value in place of every free hole. -/
def fill (invocation : String) (e value : Expr) : Expr :=
  match e with
  | .hole => value
  | .call callee args =>
      if callee.name? = some invocation then .call callee (fillFirst invocation args value)
      else .call (callee.fill invocation value) (fillAll invocation args value)
  | .assign target bound => .assign (target.fill invocation value) (bound.fill invocation value)
  | .block lines => .block (fillAll invocation lines value)
  | .marked tag inner => .marked tag (inner.fill invocation value)
  | .name x => .name x
  | .raw payload => .raw payload

def fillFirst (invocation : String) (es : List Expr) (value : Expr) : List Expr :=
  match es with
  | [] => []
  | e :: es => e.fill invocation value :: es

def fillAll (invocation : String) (es : List Expr) (value : Expr) : List Expr :=
  match es with
  | [] => []
  | e :: es => e.fill invocation value :: fillAll invocation es value

end

theorem anyHasHole_eq_any (invocation : String) (es : List Expr) :
    anyHasHole invocation es = es.any (hasHole invocation) := by
  induction es with
  | nil => rfl
  | cons e es ih => simp [anyHasHole, ih]

theorem fillAll_eq_map (invocation : String) (es : List Expr) (value : Expr) :
    fillAll invocation es value = es.map (·.fill invocation value) := by
  induction es with
  | nil => rfl
  | cons e es ih => simp [fillAll, ih]

/-- Puts a value in front of the arguments of a call, or calls any other expression with it.
An assignment stays one, and what it assigns receives the value. -/
def withFirstArgument (e value : Expr) : Expr :=
  match e with
  | .assign target bound => .assign target (bound.withFirstArgument value)
  | .call callee args => .call callee (value :: args)
  | e => .call e [value]

/-- Hands a value to an expression: at its free holes if it has any, and otherwise as its first
argument. -/
def feed (invocation : String) (e value : Expr) : Expr :=
  if e.hasHole invocation then e.fill invocation value else e.withFirstArgument value

mutual

theorem size_fill (invocation x : String) (e : Expr) :
    (e.fill invocation (.name x)).size = e.size := by
  cases e with
  | call callee args =>
      by_cases pipeline : callee.name? = some invocation
      · simp only [fill, pipeline, if_true, size]
        rw [totalSize_fillFirst invocation x args]
      · simp only [fill, pipeline, if_false, size]
        rw [size_fill invocation x callee, totalSize_fillAll invocation x args]
  | assign target value =>
      simp [fill, size, size_fill invocation x target, size_fill invocation x value]
  | block lines => simp [fill, size, totalSize_fillAll invocation x lines]
  | marked tag inner => simp [fill, size, size_fill invocation x inner]
  | _ => rfl

theorem totalSize_fillFirst (invocation x : String) (es : List Expr) :
    totalSize (fillFirst invocation es (.name x)) = totalSize es := by
  cases es with
  | nil => rfl
  | cons e es => simp [fillFirst, totalSize, size_fill invocation x e]

theorem totalSize_fillAll (invocation x : String) (es : List Expr) :
    totalSize (fillAll invocation es (.name x)) = totalSize es := by
  cases es with
  | nil => rfl
  | cons e es =>
      simp [fillAll, totalSize, size_fill invocation x e, totalSize_fillAll invocation x es]

end

theorem size_withFirstArgument_le (e : Expr) (x : String) :
    (e.withFirstArgument (.name x)).size ≤ e.size + 2 := by
  cases e with
  | assign target bound =>
      have grown := size_withFirstArgument_le bound x
      simp only [withFirstArgument, size]
      omega
  | _ => simp only [withFirstArgument, size, totalSize]; omega

/-- Handing on a name adds at most two nodes: the call and the name. -/
theorem size_feed_le (invocation x : String) (e : Expr) :
    (e.feed invocation (.name x)).size ≤ e.size + 2 := by
  unfold feed
  split
  · rw [size_fill]; omega
  · exact size_withFirstArgument_le e x

end Pipelines.Expr
