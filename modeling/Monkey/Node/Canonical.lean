import Monkey.Node
import Monkey.Text.Decimal

/-!
# The canonical form of a tree

The canonical form is program text: operators are written with all their parentheses, let and
return statements end in a semicolon, and statements follow each other without a separator.
A condition gets parentheses unless it brings its own.

Printing is limited by the depth of the tree: `canonical?` refuses a tree that is deeper than
the limit, and prints every other one.
-/

namespace Monkey.Node

/-- Whether the canonical form of a node stands between parentheses of its own. -/
def isParenthesized : Node → Bool
  | prefixOp .. | infixOp .. => true
  | _ => false

/-- A text as a condition: in parentheses, unless it has them already. -/
def asCondition (parenthesized : Bool) (text : String) : String :=
  if parenthesized then text else "(" ++ text ++ ")"

mutual
/-- The canonical form of a tree. -/
@[simp]
def canonical : Node → String
  | program _ statements => String.join (canonicalEach statements)
  | letStatement t name value => t.literal ++ " " ++ name.canonical ++ " = " ++ value.canonical ++ ";"
  | identifier _ value => value
  | returnStatement t value => t.literal ++ " " ++ value.canonical ++ ";"
  | expressionStatement _ expression => expression.canonical
  | integer _ value => Text.Decimal.ofInt value
  | prefixOp _ operator right => "(" ++ operator ++ right.canonical ++ ")"
  | infixOp _ left operator right =>
    "(" ++ left.canonical ++ " " ++ operator ++ " " ++ right.canonical ++ ")"
  | boolean _ value => if value then "true" else "false"
  | conditional t condition consequence none =>
    t.literal ++ " " ++ asCondition condition.isParenthesized condition.canonical ++ " " ++
      consequence.canonical
  | conditional t condition consequence (some alternative) =>
    t.literal ++ " " ++ asCondition condition.isParenthesized condition.canonical ++ " " ++
      consequence.canonical ++ " else " ++ alternative.canonical
  | block _ statements => "\x7b" ++ String.join (canonicalEach statements) ++ "\x7d"
  | function t parameters body =>
    t.literal ++ "(" ++ ", ".intercalate (canonicalEach parameters) ++ ") " ++ body.canonical
  | call _ callee arguments =>
    callee.canonical ++ "(" ++ ", ".intercalate (canonicalEach arguments) ++ ")"

/-- The canonical form of each tree of a list. -/
def canonicalEach : List Node → List String
  | [] => []
  | node :: rest => node.canonical :: canonicalEach rest
end

/-- The canonical forms of a list are those of its members. -/
theorem canonicalEach_eq_map (nodes : List Node) : canonicalEach nodes = nodes.map canonical := by
  induction nodes with
  | nil => rfl
  | cons node rest ih => simp [canonicalEach, ih]

/-- The depth of the deepest trees that are printed where no other depth is asked for. -/
def depthLimit : Nat := 1000

/-- The canonical form of a tree that is not too deep to print. -/
def canonical? (node : Node) (limit : Nat := depthLimit) : Option String :=
  if node.depth ≤ limit then some node.canonical else none

end Monkey.Node
