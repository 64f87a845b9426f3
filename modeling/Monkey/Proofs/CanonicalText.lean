import Monkey.Node.Canonical

/-!
# The characters of a canonical form

The canonical form of a tree as a list of characters, with one equation for each kind of node.
-/

namespace Monkey.Node

/-- The characters of the canonical form of a tree. -/
def text (node : Node) : List Char := node.canonical.toList

/-- The characters of statements one after the other. -/
def textAll (statements : List Node) : List Char := statements.flatMap text

/-- The characters of trees with commas between them. -/
def textCommas (nodes : List Node) : List Char := (", ".intercalate (canonicalEach nodes)).toList

/-- The characters of a condition: in parentheses, unless it has them already. -/
def conditionText (parenthesized : Bool) (chars : List Char) : List Char :=
  if parenthesized then chars else '(' :: (chars ++ [')'])

@[simp]
theorem textAll_nil : textAll [] = [] := rfl

@[simp]
theorem textAll_cons (node : Node) (rest : List Node) :
    textAll (node :: rest) = node.text ++ textAll rest := rfl

@[simp]
theorem textCommas_nil : textCommas [] = [] := rfl

@[simp]
theorem textCommas_singleton (node : Node) : textCommas [node] = node.text := by
  simp [textCommas, canonicalEach, text]

theorem textCommas_cons_cons (node next : Node) (rest : List Node) :
    textCommas (node :: next :: rest) = node.text ++ ',' :: ' ' :: textCommas (next :: rest) := by
  simp [textCommas, canonicalEach, text, String.intercalate_cons_cons]

/-- Statements are printed one after the other. -/
theorem toList_join_canonicalEach (statements : List Node) :
    (String.join (canonicalEach statements)).toList = textAll statements := by
  rw [String.toList_join, canonicalEach_eq_map, List.flatMap_map]
  rfl

theorem toList_asCondition (parenthesized : Bool) (condition : String) :
    (asCondition parenthesized condition).toList =
      conditionText parenthesized condition.toList := by
  cases parenthesized <;> simp [asCondition, conditionText]

theorem text_program (t : Token) (statements : List Node) :
    (program t statements).text = textAll statements := by
  rw [text, canonical, toList_join_canonicalEach]

theorem text_letStatement (t : Token) (name value : Node) :
    (letStatement t name value).text =
      t.literal.toList ++ ' ' :: (name.text ++ ' ' :: '=' :: ' ' :: (value.text ++ [';'])) := by
  simp [text, canonical]

theorem text_returnStatement (t : Token) (value : Node) :
    (returnStatement t value).text = t.literal.toList ++ ' ' :: (value.text ++ [';']) := by
  simp [text, canonical]

theorem text_expressionStatement (t : Token) (expression : Node) :
    (expressionStatement t expression).text = expression.text := rfl

theorem text_integer (t : Token) (value : Nat) :
    (integer t value).text = Text.Decimal.digits value := by
  simp [text, canonical, Text.Decimal.ofInt, Text.Decimal.ofNat]

theorem text_prefixOp (t : Token) (operator : String) (right : Node) :
    (prefixOp t operator right).text = '(' :: (operator.toList ++ (right.text ++ [')'])) := by
  simp [text, canonical]

theorem text_infixOp (t : Token) (left : Node) (operator : String) (right : Node) :
    (infixOp t left operator right).text =
      '(' :: (left.text ++ ' ' :: (operator.toList ++ ' ' :: (right.text ++ [')']))) := by
  simp [text, canonical]

theorem text_boolean (t : Token) (value : Bool) :
    (boolean t value).text = if value then "true".toList else "false".toList := by
  cases value <;> rfl

theorem text_conditional_none (t : Token) (condition consequence : Node) :
    (conditional t condition consequence none).text =
      t.literal.toList ++ ' ' :: (conditionText condition.isParenthesized condition.text ++
        ' ' :: consequence.text) := by
  simp [text, canonical, toList_asCondition]

theorem text_conditional_some (t : Token) (condition consequence alternative : Node) :
    (conditional t condition consequence (some alternative)).text =
      t.literal.toList ++ ' ' :: (conditionText condition.isParenthesized condition.text ++
        ' ' :: (consequence.text ++ ' ' :: ("else".toList ++ ' ' :: alternative.text))) := by
  simp [text, canonical, toList_asCondition]

theorem text_block (t : Token) (statements : List Node) :
    (block t statements).text = '\x7b' :: (textAll statements ++ ['\x7d']) := by
  simp only [text, canonical, String.toList_append, toList_join_canonicalEach]
  rfl

theorem text_function (t : Token) (parameters : List Node) (body : Node) :
    (function t parameters body).text =
      t.literal.toList ++ '(' :: (textCommas parameters ++ ')' :: ' ' :: body.text) := by
  simp [text, canonical, textCommas]

theorem text_call (t : Token) (callee : Node) (arguments : List Node) :
    (call t callee arguments).text = callee.text ++ '(' :: (textCommas arguments ++ [')']) := by
  simp [text, canonical, textCommas]

end Monkey.Node
