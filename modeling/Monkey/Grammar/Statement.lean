import Monkey.Node
import Monkey.Grammar.Precedence
import Monkey.Grammar.Sequence

/-!
# Statements

Each construct is read from its first token on, and leaves the stream on its last token. The
expressions in it are read by `nested`, a parameter, which takes the precedence that an operator
has to exceed in order to be part of the expression. A semicolon after a statement belongs to
it. A block ends with its closing brace or, unfinished, with the input.
-/

namespace Monkey.Grammar

open Reading

/-- A reading for expressions: operators above the given precedence are part of them. -/
abbrev Nested := Precedence → Reading Node

/-- The current token as a name. -/
def identifier : Reading Node := do
  let token ← current
  give (.identifier token token.literal)

/-- A let statement. -/
def letStatement (nested : Nested) : Reading Node := do
  let token ← current
  expect .ident
  let name ← identifier
  expect .assign
  advance
  let value ← nested .lowest
  skip .semicolon
  give (.letStatement token name value)

/-- A return statement. -/
def returnStatement (nested : Nested) : Reading Node := do
  let token ← current
  advance
  let value ← nested .lowest
  skip .semicolon
  give (.returnStatement token value)

/-- An expression as a statement. -/
def expressionStatement (nested : Nested) : Reading Node := do
  let token ← current
  let expression ← nested .lowest
  skip .semicolon
  give (.expressionStatement token expression)

/-- A statement, by its first token. -/
def statement (nested : Nested) : Reading Node := do
  match (← current).kind with
  | .kwLet => letStatement nested
  | .kwReturn => returnStatement nested
  | _ => expressionStatement nested

/-- The statements between braces. -/
def blockStatement (nested : Nested) : Reading Node := do
  let token ← current
  advance
  let statements ← allUntil .rbrace (statement nested)
  give (.block token statements)

/-- A whole program: statements up to the end of input. -/
def program (nested : Nested) : Reading Node := do
  let statements ← allUntil .eof (statement nested)
  let token ← current
  give (.program token statements)

end Monkey.Grammar
