import Monkey.Grammar.Rules
import Monkey.Grammar.Statement
import Monkey.Text.Decimal

/-!
# Expressions

An expression starts with what the rule for its first token reads, and goes on as long as the
next token binds tighter than the expression around it. As in statements, the expressions
inside a construct are read by `nested`.

Only `expression` is recursive through nesting: it hands itself to the constructs with one
level of nesting less, and fails where no level is left. The loop over operators recurses on
the length of the stream.
-/

namespace Monkey.Grammar

open Reading

/-- The largest integer, 2 ^ 63 - 1. -/
def maxInteger : Nat := 9223372036854775807

/-- The current token as a number. -/
def integerLiteral : Reading Node := do
  let token ← current
  match Text.Decimal.read token.literal with
  | .error error => fail (.unreadable error)
  | .ok value =>
    if maxInteger < value then reject (.invalidInteger token) else give (.integer token value)

/-- The current token as a truth value. -/
def boolean : Reading Node := do
  let token ← current
  give (.boolean token (decide (token.kind = .kwTrue)))

/-- A prefix operator and its operand. -/
def prefixExpression (nested : Nested) : Reading Node := do
  let token ← current
  advance
  let right ← nested .prefixOp
  give (.prefixOp token token.literal right)

/-- An infix operator and its right operand, after the left one. The right operand takes only
operators that bind tighter, so that chains of one precedence lean to the left. -/
def infixExpression (nested : Nested) (left : Node) : Reading Node := do
  let token ← current
  advance
  let right ← nested (.ofKind token.kind)
  give (.infixOp token left token.literal right)

/-- An expression in parentheses, which leave no trace in the tree. -/
def groupedExpression (nested : Nested) : Reading Node := do
  advance
  let inner ← nested .lowest
  expect .rparen
  give inner

/-- A conditional and the alternative that may follow it. -/
def ifExpression (nested : Nested) : Reading Node := do
  let token ← current
  expect .lparen
  advance
  let condition ← nested .lowest
  expect .rparen
  expect .lbrace
  let consequence ← blockStatement nested
  if (← upcoming).kind = .kwElse then
    advance
    expect .lbrace
    let alternative ← blockStatement nested
    give (.conditional token condition consequence (some alternative))
  else
    give (.conditional token condition consequence none)

/-- The parameters of a function. -/
def functionParameters : Reading (List Node) :=
  parenthesized do
    expect .ident
    identifier

/-- A function with its parameters and its body. -/
def functionLiteral (nested : Nested) : Reading Node := do
  let token ← current
  expect .lparen
  let parameters ← functionParameters
  expect .lbrace
  let body ← blockStatement nested
  give (.function token parameters body)

/-- The arguments of a call. -/
def callArguments (nested : Nested) : Reading (List Node) :=
  parenthesized do
    advance
    nested .lowest

/-- The arguments of a call, after what is called. -/
def callExpression (nested : Nested) (callee : Node) : Reading Node := do
  let token ← current
  let arguments ← callArguments nested
  give (.call token callee arguments)

/-- What a rule reads from the token that chose it. -/
def applyPrefix (nested : Nested) : PrefixRule → Reading Node
  | .identifier => identifier
  | .integer => integerLiteral
  | .boolean => boolean
  | .operator => prefixExpression nested
  | .group => groupedExpression nested
  | .conditional => ifExpression nested
  | .function => functionLiteral nested

/-- What a rule makes of an expression and the token after it. -/
def applyInfix (nested : Nested) : InfixRule → Node → Reading Node
  | .operator => infixExpression nested
  | .call => callExpression nested

/-- An expression up to its first operator. -/
def operand (rules : Rules) (nested : Nested) : Reading Node := do
  let token ← current
  match rules.prefixRule? token.kind with
  | none => reject (.missingPrefixRule token)
  | some rule => applyPrefix nested rule

/-- An expression with the operators after it that bind tighter than the given precedence. -/
def continuedFrom (rules : Rules) (nested : Nested) (precedence : Precedence) (left : Node)
    (stream : TokenStream) : { outcome : Outcome Node // outcome.rest <:+ stream } :=
  if _h : precedence < .ofKind stream.peek.kind then
    match rules.infixRule? stream.peek.kind with
    | none =>
      ⟨.failed (.invalid (.missingInfixRule stream.peek)) stream, List.suffix_refl stream⟩
    | some rule =>
      match applyInfix nested rule left stream.advance with
      | ⟨.failed failure rest, hrest⟩ =>
        ⟨.failed failure rest, hrest.trans (TokenStream.advance_suffix stream)⟩
      | ⟨.done longer rest, hrest⟩ =>
        match continuedFrom rules nested precedence longer rest with
        | ⟨outcome, houtcome⟩ =>
          ⟨outcome, houtcome.trans (hrest.trans (TokenStream.advance_suffix stream))⟩
  else ⟨.done left stream, List.suffix_refl stream⟩
termination_by stream.length
decreasing_by
  have hpeek : stream.peek.kind ≠ .eof := fun heof =>
    Precedence.not_lt_lowest precedence (by rw [heof] at _h; exact _h)
  exact Nat.lt_of_le_of_lt hrest.length_le (TokenStream.length_advance_lt_of_peek hpeek)

/-- An expression with the operators after it that bind tighter than the given precedence. -/
def continued (rules : Rules) (nested : Nested) (precedence : Precedence) (left : Node) :
    Reading Node := continuedFrom rules nested precedence left

/-- Each turn makes the expression and the next token, if it binds tighter, the left operand of
the next turn. -/
theorem continuedFrom_eq (rules : Rules) (nested : Nested) (precedence : Precedence)
    (left : Node) (stream : TokenStream) :
    (continuedFrom rules nested precedence left stream).val =
      if precedence < .ofKind stream.peek.kind then
        match rules.infixRule? stream.peek.kind with
        | none => .failed (.invalid (.missingInfixRule stream.peek)) stream
        | some rule =>
          match (applyInfix nested rule left).run stream.advance with
          | .done longer rest => (continuedFrom rules nested precedence longer rest).val
          | .failed failure rest => .failed failure rest
      else .done left stream := by
  rw [continuedFrom]
  by_cases hbinds : precedence < .ofKind stream.peek.kind
  · rw [dif_pos hbinds, if_pos hbinds]
    cases rules.infixRule? stream.peek.kind with
    | none => rfl
    | some rule =>
      dsimp only
      unfold run
      rcases applyInfix nested rule left stream.advance with ⟨_ | _, _⟩ <;> rfl
  · rw [dif_neg hbinds, if_neg hbinds]

/-- An expression whose parts are read by `nested`. -/
def expressionFrom (rules : Rules) (nested : Nested) : Nested := fun precedence => do
  let left ← operand rules nested
  continued rules nested precedence left

/-- An expression with at most the given number of levels of nesting. -/
def expression (rules : Rules) : Nat → Nested
  | 0 => fun _ => do reject (.nestingTooDeep (← current))
  | levels + 1 => expressionFrom rules (expression rules levels)

/-- The number of levels of nesting that are followed where no other number is asked for. -/
def nestingLimit : Nat := 500

end Monkey.Grammar
