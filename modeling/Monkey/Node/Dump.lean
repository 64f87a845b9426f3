import Monkey.Node
import Monkey.Text.Decimal

/-!
# The structural dump of a tree

A dump has one line per node: its title, its plain fields, and the quoted text it starts with
if there is one. Below the line stand the fields that hold nodes, each under a line with its
name, one step further in; the nodes of a field stand one step further in than its name. Empty
lists and a missing alternative leave no trace.

Indentation counts steps of two spaces and may be negative, in which case nothing is written.
-/

namespace Monkey

/-- How a dump shows a truth value. -/
def truthText (value : Bool) : String := if value then "True" else "False"

/-- The spaces in front of a line. -/
def indentation (indent : Int) : String := String.ofList (List.replicate (2 * indent.toNat) ' ')

namespace Node

/-- The fields of a node that hold no nodes, with the text of their values. -/
def plainFields : Node → List (String × String)
  | identifier _ value => [("value", Text.quoted value)]
  | integer _ value => [("value", Text.Decimal.ofInt value)]
  | prefixOp _ operator _ => [("operator", Text.quoted operator)]
  | infixOp _ _ operator _ => [("operator", Text.quoted operator)]
  | boolean _ value => [("value", truthText value)]
  | _ => []

/-- Named values in parentheses, and nothing where there are none. -/
def fieldList : List (String × String) → String
  | [] => ""
  | fields => "(" ++ ", ".intercalate (fields.map fun field => field.1 ++ "=" ++ field.2) ++ ")"

/-- The quoted text that a node starts with, between angle brackets. -/
def literalTag (literal : String) : String :=
  if literal = "" then "" else " <" ++ Text.quoted literal ++ ">"

/-- The line of a node itself. -/
def header (node : Node) : String :=
  node.kind.title ++ fieldList node.plainFields ++ literalTag node.tokenLiteral

/-- The line with the name of a field. -/
def fieldLabel (indent : Int) (name : String) : String := indentation indent ++ "  " ++ name ++ ":"

mutual
/-- The lines of a tree. -/
def dump (indent : Int) (node : Node) : List String :=
  (indentation indent ++ node.header) ::
    match node with
    | program _ statements => dumpField indent "statements" statements
    | letStatement _ name value =>
      fieldLabel indent "name" :: name.dump (indent + 2) ++
        fieldLabel indent "value" :: value.dump (indent + 2)
    | identifier .. => []
    | returnStatement _ value => fieldLabel indent "return_value" :: value.dump (indent + 2)
    | expressionStatement _ expression =>
      fieldLabel indent "expression" :: expression.dump (indent + 2)
    | integer .. => []
    | prefixOp _ _ right => fieldLabel indent "right" :: right.dump (indent + 2)
    | infixOp _ left _ right =>
      fieldLabel indent "left" :: left.dump (indent + 2) ++
        fieldLabel indent "right" :: right.dump (indent + 2)
    | boolean .. => []
    | conditional _ condition consequence none =>
      fieldLabel indent "condition" :: condition.dump (indent + 2) ++
        fieldLabel indent "consequence" :: consequence.dump (indent + 2)
    | conditional _ condition consequence (some alternative) =>
      fieldLabel indent "condition" :: condition.dump (indent + 2) ++
        fieldLabel indent "consequence" :: consequence.dump (indent + 2) ++
          fieldLabel indent "alternative" :: alternative.dump (indent + 2)
    | block _ statements => dumpField indent "statements" statements
    | function _ parameters body =>
      dumpField indent "parameters" parameters ++
        fieldLabel indent "body" :: body.dump (indent + 2)
    | call _ callee arguments =>
      fieldLabel indent "function" :: callee.dump (indent + 2) ++
        dumpField indent "arguments" arguments

/-- The lines of a field that holds a list of nodes. -/
def dumpField (indent : Int) (name : String) : List Node → List String
  | [] => []
  | node :: rest => fieldLabel indent name :: node.dump (indent + 2) ++ dumpAll (indent + 2) rest

/-- The lines of the trees of a list, one after the other. -/
def dumpAll (indent : Int) : List Node → List String
  | [] => []
  | node :: rest => node.dump indent ++ dumpAll indent rest
end

end Node

/-- What can be dumped: trees, lists of anything that can be dumped, and plain values. A value of any other
kind comes with the text that shows it. -/
inductive DumpValue where
  | node (tree : Node)
  | list (values : List DumpValue)
  | int (value : Int)
  | text (value : String)
  | bool (value : Bool)
  | nothing
  | other (shown : String)
deriving Repr

namespace DumpValue

mutual
/-- The lines of a value. The members of a list stand at the indentation of the list. -/
def dump (indent : Int) : DumpValue → List String
  | node tree => tree.dump indent
  | list values => dumpAll indent values
  | int value => [indentation indent ++ Text.Decimal.ofInt value]
  | text value => [indentation indent ++ Text.quoted value]
  | bool value => [indentation indent ++ truthText value]
  | nothing => [indentation indent ++ "None"]
  | other shown => [indentation indent ++ shown]

/-- The lines of the values of a list, one after the other. -/
def dumpAll (indent : Int) : List DumpValue → List String
  | [] => []
  | value :: rest => value.dump indent ++ dumpAll indent rest
end

end DumpValue

end Monkey
