import Monkey.Grammar.Expression
import Monkey.Parser.Loop

/-!
# Constructs

One method for each construct of the language. It starts with the current token of the window, which it
does not check unless the choice of what to do depends on it, and ends on the last token that it has
taken. The expressions in a construct are read by `nested`, which takes the precedence that an operator
has to exceed in order to be part of the expression.

Each construct is called in a frame of its own, the program apart, and makes room for what it does by
itself. Room that has been made once in a frame is there again.
-/

namespace Monkey.Parser

open Method

/-- A method for expressions: operators above the given precedence are part of them. -/
abbrev Nested := Precedence → Method Node

/-- End a construct with its node. -/
def make (node : Node) : Method Node := do
  room .node
  give node

/-! ## Statements -/

/-- The current token as a name. -/
def name : Method Node := do
  let token ← current
  make (.identifier token token.literal)

/-- The current token as an expression that is a name. -/
def identifier : Method Node := call name

/-- A let statement. -/
def letStatement (nested : Nested) : Method Node := call do
  let token ← current
  expect .ident
  let name ← name
  expect .assign
  advance
  let value ← nested .lowest
  skip .semicolon
  make (.letStatement token name value)

/-- A return statement. -/
def returnStatement (nested : Nested) : Method Node := call do
  let token ← current
  advance
  let value ← nested .lowest
  skip .semicolon
  make (.returnStatement token value)

/-- An expression as a statement. -/
def expressionStatement (nested : Nested) : Method Node := call do
  let token ← current
  let expression ← nested .lowest
  skip .semicolon
  make (.expressionStatement token expression)

/-- A statement, by its first token. -/
def statement (nested : Nested) : Method Node := call do
  room .test
  match (← current).kind with
  | .kwLet => letStatement nested
  | .kwReturn => returnStatement nested
  | _ => expressionStatement nested

/-- The statements between braces. -/
def blockStatement (nested : Nested) : Method Node := call do
  let token ← current
  advance
  let statements ← allUntil .rbrace (statement nested)
  room .list
  make (.block token statements)

/-- The statements up to the end of input. -/
def program (nested : Nested) : Method Node := do
  let statements ← allUntil .eof (statement nested)
  let token ← current
  give (.program token statements)

/-! ## Expressions -/

/-- The current token as a number. -/
def integerLiteral : Method Node := call do
  let token ← current
  room .number
  match Text.Decimal.read token.literal with
  | .error error => fail (.unreadable error)
  | .ok value =>
    if Grammar.maxInteger < value then reject (.invalidInteger token) else make (.integer token value)

/-- The current token as a truth value. -/
def boolean : Method Node := call do
  let token ← current
  room .test
  make (.boolean token (decide (token.kind = .kwTrue)))

/-- A prefix operator and its operand. -/
def prefixExpression (nested : Nested) : Method Node := call do
  let token ← current
  advance
  let right ← nested .prefixOp
  make (.prefixOp token token.literal right)

/-- An infix operator and its right operand, after the left one. -/
def infixExpression (nested : Nested) (left : Node) : Method Node := call do
  let token ← current
  room .precedence
  advance
  let right ← nested (.ofKind token.kind)
  make (.infixOp token left token.literal right)

/-- An expression in parentheses. -/
def groupedExpression (nested : Nested) : Method Node := call do
  advance
  let inner ← nested .lowest
  expect .rparen
  give inner

/-- A conditional and the alternative that may follow it. -/
def ifExpression (nested : Nested) : Method Node := call do
  let token ← current
  expect .lparen
  advance
  let condition ← nested .lowest
  expect .rparen
  expect .lbrace
  let consequence ← blockStatement nested
  room .test
  if (← upcoming).kind = .kwElse then
    advance
    expect .lbrace
    let alternative ← blockStatement nested
    make (.conditional token condition consequence (some alternative))
  else
    make (.conditional token condition consequence none)

/-- The parameters of a function. -/
def functionParameters : Method (List Node) := call <| parenthesized do
  expect .ident
  name

/-- A function with its parameters and its body. -/
def functionLiteral (nested : Nested) : Method Node := call do
  let token ← current
  expect .lparen
  let parameters ← functionParameters
  expect .lbrace
  let body ← blockStatement nested
  make (.function token parameters body)

/-- The arguments of a call. -/
def callArguments (nested : Nested) : Method (List Node) := call <| parenthesized do
  advance
  nested .lowest

/-- The arguments of a call, after what is called. -/
def callExpression (nested : Nested) (callee : Node) : Method Node := call do
  let token ← current
  let arguments ← callArguments nested
  make (.call token callee arguments)

/-- What a rule reads from the token that chose it. -/
def applyPrefix (nested : Nested) : PrefixRule → Method Node
  | .identifier => identifier
  | .integer => integerLiteral
  | .boolean => boolean
  | .operator => prefixExpression nested
  | .group => groupedExpression nested
  | .conditional => ifExpression nested
  | .function => functionLiteral nested

/-- What a rule makes of an expression and the token after it. -/
def applyInfix (nested : Nested) : InfixRule → Node → Method Node
  | .operator => infixExpression nested
  | .call => callExpression nested

/-- An expression up to its first operator. -/
def operand (rules : Rules) (nested : Nested) : Method Node := do
  let token ← current
  room .rule
  match rules.prefixRule? token.kind with
  | none => reject (.missingPrefixRule token)
  | some rule => applyPrefix nested rule

/-- A turn over the operators of an expression: the expression and the next token, if it binds tighter than
the given precedence, become the left operand of the next turn. A semicolon always ends the expression. -/
def operatorTurn (rules : Rules) (nested : Nested) (precedence : Precedence) (left : Node) :
    Method (Node ⊕ Node) := do
  room .test
  let next ← upcoming
  if next.kind = .semicolon then give (.inr left)
  else
    room .precedence
    if precedence < .ofKind next.kind then
      room .rule
      match rules.infixRule? next.kind with
      | none => reject (.missingInfixRule next)
      | some rule =>
        advance
        let longer ← applyInfix nested rule left
        give (.inl longer)
    else give (.inr left)

/-- A semicolon binds no expression, so that it need not be looked for. -/
theorem run_operatorTurn (rules : Rules) (nested : Nested) (precedence : Precedence) (left : Node)
    (window : Window) :
    (operatorTurn rules nested precedence left).run window =
      if precedence < .ofKind window.peek.kind then
        match rules.infixRule? window.peek.kind with
        | none => .failed (.invalid (.missingInfixRule window.peek)) window
        | some rule => (applyInfix nested rule left >>= fun longer => give (.inl longer)).run window.nextToken
      else .done (.inr left) window := by
  simp only [operatorTurn, run_bind, run_room, run_upcoming]
  by_cases hbinds : precedence < .ofKind window.peek.kind
  · have hgoes : window.peek.kind ≠ .semicolon := fun hsemicolon =>
      Precedence.not_lt_lowest precedence (by rw [hsemicolon] at hbinds; exact hbinds)
    rw [if_neg hgoes, if_pos hbinds]
    simp only [run_bind, run_room, if_pos hbinds]
    cases rules.infixRule? window.peek.kind with
    | none => rfl
    | some rule => simp only [run_bind, run_advance]
  · rw [if_neg hbinds]
    split
    · rfl
    · simp only [run_bind, run_room, run_give]

theorem progresses_operatorTurn (rules : Rules) (nested : Nested) (precedence : Precedence) :
    Progresses (operatorTurn rules nested precedence) := by
  intro left window next after h
  rw [run_operatorTurn] at h
  split at h
  · rename_i hbinds
    split at h
    · cases h
    · obtain ⟨longer, mid, hlonger, hgive⟩ := run_bind_eq_done.mp h
      obtain ⟨-, rfl⟩ := Ending.done.inj hgive
      exact Window.weight_lt_of_peek (Precedence.ne_eof_of_lt hbinds) (within_of_run hlonger)
  · cases h

/-- An expression with the operators after it that bind tighter than the given precedence. -/
def continuedFrom (rules : Rules) (nested : Nested) (precedence : Precedence) (left : Node) : Method Node :=
  loop (operatorTurn rules nested precedence) (progresses_operatorTurn rules nested precedence) left

/-- Each turn makes the expression and the next token, if it binds tighter, the left operand of the next
turn. -/
theorem run_continuedFrom (rules : Rules) (nested : Nested) (precedence : Precedence) (left : Node)
    (window : Window) :
    (continuedFrom rules nested precedence left).run window =
      if precedence < .ofKind window.peek.kind then
        match rules.infixRule? window.peek.kind with
        | none => .failed (.invalid (.missingInfixRule window.peek)) window
        | some rule =>
          (applyInfix nested rule left >>= continuedFrom rules nested precedence).run window.nextToken
      else .done left window := by
  rw [continuedFrom, run_loop, run_bind, run_operatorTurn]
  by_cases hbinds : precedence < .ofKind window.peek.kind
  · rw [if_pos hbinds, if_pos hbinds]
    cases rules.infixRule? window.peek.kind with
    | none => rfl
    | some rule =>
      dsimp only
      rw [run_bind, run_bind]
      cases (applyInfix nested rule left).run window.nextToken <;> rfl
  · rw [if_neg hbinds, if_neg hbinds]
    rfl

/-- An expression whose parts are read by `nested`. -/
def expressionFrom (rules : Rules) (nested : Nested) : Nested := fun precedence => call do
  let left ← operand rules nested
  continuedFrom rules nested precedence left

/-- An expression with at most the given number of levels of nesting. -/
def expression (rules : Rules) : Nat → Nested
  | 0 => fun _ => do fail (.invalid (.nestingTooDeep (← current)))
  | levels + 1 => expressionFrom rules (expression rules levels)

/-- The program that a text holds. There are more levels of nesting than tokens, so that nesting ends with
the stack alone. -/
def programOf (source : String) : Method Node := program (expression .standard (source.length + 1))

/-- The program that a text holds, read in a stack, whose frames are those that the reading of statements
may take: the window has been filled before, and what the stack has run out on is reported after it has
been given back. -/
def parseWithin (stack : Stack) (source : String) : Except ParseFailure Node :=
  ((programOf source).runWithin stack (.ofSource source)).result

end Monkey.Parser
