import Monkey.Node

/-!
# Categories of nodes

A category is one kind of node, the statements, the expressions, or all nodes. Asking for a
node as a member of a category it does not belong to is refused with the name of both.
-/

namespace Monkey

/-- A set of node kinds that has a name. -/
inductive Category where
  | node
  | statement
  | expression
  | only (kind : NodeKind)
deriving DecidableEq, Repr

namespace Category

/-- The name of a category. -/
def title : Category → String
  | node => "Node"
  | statement => "Statement"
  | expression => "Expression"
  | only kind => kind.title

/-- Whether a kind of node belongs to a category. -/
def includes : Category → NodeKind → Bool
  | node, _ => true
  | statement, kind => kind.isStatement
  | expression, kind => kind.isExpression
  | only kind, kind' => decide (kind = kind')

end Category

/-- A node was asked for as a member of a category it does not belong to. -/
structure CategoryMismatch where
  expected : Category
  found : NodeKind
deriving DecidableEq, Repr

namespace CategoryMismatch

/-- The wording of a refusal. -/
def message (mismatch : CategoryMismatch) : String :=
  "expected " ++ mismatch.expected.title ++ ", got " ++ mismatch.found.title ++ " (" ++
    mismatch.found.name ++ ")"

end CategoryMismatch

namespace Node

/-- The node itself where it belongs to the category. -/
def narrow (category : Category) (node : Node) : Except CategoryMismatch Node :=
  if category.includes node.kind then .ok node else .error ⟨category, node.kind⟩

/-- Narrowing gives back the node it was given. -/
theorem eq_of_narrow {category : Category} {node result : Node}
    (h : node.narrow category = .ok result) : result = node := by
  unfold narrow at h
  split at h
  · simpa using h.symm
  · simp at h

end Node

end Monkey
