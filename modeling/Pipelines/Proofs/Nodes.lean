import Pipelines.Expr.Basic

namespace Pipelines.Expr

mutual

/-- The nodes of a tree, each as the tree below it. -/
def nodes : Expr → List Expr
  | .name x => [.name x]
  | .call callee args => .call callee args :: (callee.nodes ++ nodesOf args)
  | .assign target value => .assign target value :: (target.nodes ++ value.nodes)
  | .block lines => .block lines :: nodesOf lines
  | .marked tag inner => .marked tag inner :: inner.nodes
  | .hole => [.hole]
  | .raw payload => [.raw payload]

def nodesOf : List Expr → List Expr
  | [] => []
  | e :: es => e.nodes ++ nodesOf es

end

theorem nodesOf_eq_flatMap (es : List Expr) : nodesOf es = es.flatMap nodes := by
  induction es with
  | nil => rfl
  | cons e es ih => simp [nodesOf, ih]

theorem mem_nodesOf {es : List Expr} {node : Expr} :
    node ∈ nodesOf es ↔ ∃ e ∈ es, node ∈ e.nodes := by
  rw [nodesOf_eq_flatMap, List.mem_flatMap]

@[simp] theorem mem_nodes_self (e : Expr) : e ∈ e.nodes := by
  cases e <;> simp [nodes]

mutual

/-- The names of a tree are its nodes that are names. -/
theorem mem_names_iff {x : String} (e : Expr) : x ∈ e.names ↔ .name x ∈ e.nodes := by
  cases e with
  | call callee args => simp [names, nodes, mem_names_iff callee, mem_namesOf_iff args]
  | assign target value => simp [names, nodes, mem_names_iff target, mem_names_iff value]
  | block lines => simp [names, nodes, mem_namesOf_iff lines]
  | marked tag inner => simp [names, nodes, mem_names_iff inner]
  | _ => simp [names, nodes]

theorem mem_namesOf_iff {x : String} (es : List Expr) : x ∈ namesOf es ↔ .name x ∈ nodesOf es := by
  cases es with
  | nil => simp [namesOf, nodesOf]
  | cons e es => simp [namesOf, nodesOf, mem_names_iff e, mem_namesOf_iff es]

end

end Pipelines.Expr
