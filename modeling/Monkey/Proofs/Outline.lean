import Monkey.Node.Dump
import Monkey.Proofs.Subtree

/-!
# The outline of a dump

The fields of a node that hold nodes are named lists: a field for one node is a list of one, and a
missing alternative is an empty list. Put one after the other these lists are the nodes directly below
the node, and a dump is the line of the node followed by what each field adds to it. So both traversals
of a tree follow one description of its nodes, and a fact about dumps needs no case for each kind.
-/

namespace Monkey.Node

/-- The fields of a node that hold nodes, with the nodes that they hold, in the order of a dump. -/
def nodeFields : Node → List (String × List Node)
  | program _ statements => [("statements", statements)]
  | letStatement _ name value => [("name", [name]), ("value", [value])]
  | identifier .. => []
  | returnStatement _ value => [("return_value", [value])]
  | expressionStatement _ expression => [("expression", [expression])]
  | integer .. => []
  | prefixOp _ _ right => [("right", [right])]
  | infixOp _ left _ right => [("left", [left]), ("right", [right])]
  | boolean .. => []
  | conditional _ condition consequence alternative =>
    [("condition", [condition]), ("consequence", [consequence]), ("alternative", alternative.toList)]
  | block _ statements => [("statements", statements)]
  | function _ parameters body => [("parameters", parameters), ("body", [body])]
  | call _ callee arguments => [("function", [callee]), ("arguments", arguments)]

/-- The nodes directly below a node are those of its fields. -/
theorem children_eq_flatMap_nodeFields (node : Node) :
    node.children = node.nodeFields.flatMap Prod.snd := by
  cases node <;> simp [children, nodeFields]

/-- A node of a field stands directly below the node. -/
theorem mem_children_of_mem_nodeFields {node child : Node} {field : String × List Node}
    (hfield : field ∈ node.nodeFields) (hchild : child ∈ field.2) : child ∈ node.children := by
  rw [children_eq_flatMap_nodeFields]
  exact List.mem_flatMap.mpr ⟨field, hfield, hchild⟩

/-! ## Lines of a dump -/

theorem dumpAll_eq_flatMap (indent : Int) (nodes : List Node) :
    dumpAll indent nodes = nodes.flatMap (dump indent) := by
  induction nodes with
  | nil => rfl
  | cons node rest ih => rw [dumpAll, ih, List.flatMap_cons]

/-- What a field adds to a dump: nothing if it holds no node, else its label and its nodes. -/
def fieldLines (indent : Int) (field : String × List Node) : List String :=
  if field.2 = [] then [] else fieldLabel indent field.1 :: field.2.flatMap (dump (indent + 2))

theorem fieldLines_nil (indent : Int) (name : String) : fieldLines indent (name, []) = [] := rfl

theorem fieldLines_cons (indent : Int) (name : String) (node : Node) (rest : List Node) :
    fieldLines indent (name, node :: rest) =
      fieldLabel indent name :: (node :: rest).flatMap (dump (indent + 2)) := rfl

theorem dumpField_eq_fieldLines (indent : Int) (name : String) (nodes : List Node) :
    dumpField indent name nodes = fieldLines indent (name, nodes) := by
  cases nodes with
  | nil => rw [dumpField, fieldLines_nil]
  | cons node rest => rw [dumpField, dumpAll_eq_flatMap, fieldLines_cons, List.flatMap_cons,
      List.cons_append]

/-- A dump is the line of the node itself and then what each of its fields adds. -/
theorem dump_eq (indent : Int) (node : Node) :
    node.dump indent =
      (indentation indent ++ node.header) :: node.nodeFields.flatMap (fieldLines indent) := by
  cases node with
  | conditional t condition consequence alternative =>
    cases alternative <;> simp [dump, nodeFields, fieldLines]
  | _ => simp [dump, nodeFields, dumpField_eq_fieldLines, fieldLines]

end Monkey.Node
