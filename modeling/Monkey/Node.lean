import Monkey.Token

/-!
# Syntax trees

A tree node keeps the token that introduced it. Nothing here requires that the token agrees
with the other fields, or that a list of statements holds statements: trees may be built by
hand. What a parsed tree satisfies beyond its shape is a matter of the grammar.
-/

namespace Monkey

/-- A node of a syntax tree. -/
inductive Node where
  | program (token : Token) (statements : List Node)
  | letStatement (token : Token) (name value : Node)
  | identifier (token : Token) (value : String)
  | returnStatement (token : Token) (value : Node)
  | expressionStatement (token : Token) (expression : Node)
  | integer (token : Token) (value : Int)
  | prefixOp (token : Token) (operator : String) (right : Node)
  | infixOp (token : Token) (left : Node) (operator : String) (right : Node)
  | boolean (token : Token) (value : Bool)
  | conditional (token : Token) (condition consequence : Node) (alternative : Option Node)
  | block (token : Token) (statements : List Node)
  | function (token : Token) (parameters : List Node) (body : Node)
  | call (token : Token) (callee : Node) (arguments : List Node)
deriving Repr

/-- What a node is. -/
inductive NodeKind where
  | program
  | letStatement
  | identifier
  | returnStatement
  | expressionStatement
  | integer
  | prefixOp
  | infixOp
  | boolean
  | conditional
  | block
  | function
  | call
deriving DecidableEq, Repr

namespace NodeKind

/-- All kinds, in the order in which they are listed. -/
def all : List NodeKind :=
  [program, letStatement, identifier, returnStatement, expressionStatement, integer, prefixOp,
   infixOp, boolean, conditional, block, function, call]

/-- The name of a kind in messages. -/
def name : NodeKind → String
  | program => "PROGRAM"
  | letStatement => "LET_STATEMENT"
  | identifier => "IDENTIFIER"
  | returnStatement => "RETURN_STATEMENT"
  | expressionStatement => "EXPRESSION_STATEMENT"
  | integer => "INTEGER_LITERAL"
  | prefixOp => "PREFIX_EXPRESSION"
  | infixOp => "INFIX_EXPRESSION"
  | boolean => "BOOLEAN"
  | conditional => "IF_EXPRESSION"
  | block => "BLOCK_STATEMENT"
  | function => "FUNCTION_LITERAL"
  | call => "CALL_EXPRESSION"

/-- The title of a kind in dumps. -/
def title : NodeKind → String
  | program => "Program"
  | letStatement => "LetStatement"
  | identifier => "Identifier"
  | returnStatement => "ReturnStatement"
  | expressionStatement => "ExpressionStatement"
  | integer => "IntegerLiteral"
  | prefixOp => "PrefixExpression"
  | infixOp => "InfixExpression"
  | boolean => "Boolean"
  | conditional => "IfExpression"
  | block => "BlockStatement"
  | function => "FunctionLiteral"
  | call => "CallExpression"

/-- Every kind is listed. -/
theorem mem_all (kind : NodeKind) : kind ∈ all := by
  cases kind <;> decide

/-- Let, return and expression statements and blocks. -/
def isStatement : NodeKind → Bool
  | letStatement | returnStatement | expressionStatement | block => true
  | _ => false

/-- The kinds that have a value. -/
def isExpression : NodeKind → Bool
  | identifier | integer | prefixOp | infixOp | boolean | conditional | function | call => true
  | _ => false

end NodeKind

namespace Node

/-- What a node is. -/
def kind : Node → NodeKind
  | program .. => .program
  | letStatement .. => .letStatement
  | identifier .. => .identifier
  | returnStatement .. => .returnStatement
  | expressionStatement .. => .expressionStatement
  | integer .. => .integer
  | prefixOp .. => .prefixOp
  | infixOp .. => .infixOp
  | boolean .. => .boolean
  | conditional .. => .conditional
  | block .. => .block
  | function .. => .function
  | call .. => .call

/-- The token that introduced a node. -/
def token : Node → Token
  | program t .. | letStatement t .. | identifier t .. | returnStatement t ..
  | expressionStatement t .. | integer t .. | prefixOp t .. | infixOp t .. | boolean t ..
  | conditional t .. | block t .. | function t .. | call t .. => t

/-- The text that a node starts with: that of its token, for a program that of its first
statement. -/
def tokenLiteral : Node → String
  | program _ [] => ""
  | program _ (first :: _) => first.tokenLiteral
  | letStatement t .. | identifier t .. | returnStatement t .. | expressionStatement t ..
  | integer t .. | prefixOp t .. | infixOp t .. | boolean t .. | conditional t .. | block t ..
  | function t .. | call t .. => t.literal

/-- The nodes directly below a node, in source order. -/
def children : Node → List Node
  | program _ statements => statements
  | letStatement _ name value => [name, value]
  | identifier .. => []
  | returnStatement _ value => [value]
  | expressionStatement _ expression => [expression]
  | integer .. => []
  | prefixOp _ _ right => [right]
  | infixOp _ left _ right => [left, right]
  | boolean .. => []
  | conditional _ condition consequence alternative =>
    condition :: consequence :: alternative.toList
  | block _ statements => statements
  | function _ parameters body => parameters ++ [body]
  | call _ callee arguments => callee :: arguments

mutual
/-- The number of nodes of a tree. -/
def size : Node → Nat
  | program _ statements => sizeAll statements + 1
  | letStatement _ name value => name.size + value.size + 1
  | identifier .. => 1
  | returnStatement _ value => value.size + 1
  | expressionStatement _ expression => expression.size + 1
  | integer .. => 1
  | prefixOp _ _ right => right.size + 1
  | infixOp _ left _ right => left.size + right.size + 1
  | boolean .. => 1
  | conditional _ condition consequence none => condition.size + consequence.size + 1
  | conditional _ condition consequence (some alternative) =>
    condition.size + consequence.size + alternative.size + 1
  | block _ statements => sizeAll statements + 1
  | function _ parameters body => sizeAll parameters + body.size + 1
  | call _ callee arguments => callee.size + sizeAll arguments + 1

/-- The number of nodes of the trees of a list. -/
def sizeAll : List Node → Nat
  | [] => 0
  | node :: rest => node.size + sizeAll rest
end

/-- The sizes of two lists add up. -/
theorem sizeAll_append (front back : List Node) :
    sizeAll (front ++ back) = sizeAll front + sizeAll back := by
  induction front with
  | nil => simp [sizeAll]
  | cons node front ih => simp [sizeAll, ih, Nat.add_assoc]

/-- A tree has one node more than the trees below its root. -/
theorem size_eq_sizeAll_children (node : Node) : node.size = sizeAll node.children + 1 := by
  cases node with
  | conditional t condition consequence alternative =>
    cases alternative <;> simp [size, children, sizeAll, Nat.add_assoc]
  | _ => simp [size, children, sizeAll, sizeAll_append]

mutual
/-- The number of nodes on the longest way down a tree. -/
def depth : Node → Nat
  | program _ statements => depthAll statements + 1
  | letStatement _ name value => max name.depth value.depth + 1
  | identifier .. => 1
  | returnStatement _ value => value.depth + 1
  | expressionStatement _ expression => expression.depth + 1
  | integer .. => 1
  | prefixOp _ _ right => right.depth + 1
  | infixOp _ left _ right => max left.depth right.depth + 1
  | boolean .. => 1
  | conditional _ condition consequence none => max condition.depth consequence.depth + 1
  | conditional _ condition consequence (some alternative) =>
    max (max condition.depth consequence.depth) alternative.depth + 1
  | block _ statements => depthAll statements + 1
  | function _ parameters body => max (depthAll parameters) body.depth + 1
  | call _ callee arguments => max callee.depth (depthAll arguments) + 1

/-- The depth of the deepest tree of a list. -/
def depthAll : List Node → Nat
  | [] => 0
  | node :: rest => max node.depth (depthAll rest)
end

end Node

end Monkey
