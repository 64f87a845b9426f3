import Monkey.Parser.Construct

/-!
# Calls to a parser

A parser can be asked to read any construct by itself, wherever its window stands, and to look at the
window or move it by single tokens. A call that fails leaves the window where it failed, and the next
call goes on from there.
-/

namespace Monkey.Parser

open Method

/-- A construct that can be read by itself. An infix operator or a call needs the expression before
it. -/
inductive Construct where
  | program
  | statement
  | letStatement
  | returnStatement
  | expressionStatement
  | blockStatement
  | expression (precedence : Precedence)
  | identifier
  | integerLiteral
  | boolean
  | prefixExpression
  | infixExpression (left : Node)
  | groupedExpression
  | ifExpression
  | functionLiteral
  | functionParameters
  | callExpression (callee : Node)
  | callArguments

/-- What a parser can be asked to do. -/
inductive Call where
  /-- Go on by one token. -/
  | nextToken
  /-- Whether the current token has a kind. -/
  | curTokenIs (kind : TokenKind)
  /-- Whether the next token has a kind. -/
  | peekTokenIs (kind : TokenKind)
  /-- Go on to the next token if it has a kind, and fail otherwise. -/
  | expectPeek (kind : TokenKind)
  /-- How tightly the next token binds the expression before it. -/
  | peekPrecedence
  /-- How tightly the current token binds the expression before it. -/
  | curPrecedence
  /-- Read a construct. -/
  | parse (construct : Construct)

/-- What a call gives. -/
inductive Value where
  | nothing
  | flag (answer : Bool)
  | precedence (precedence : Precedence)
  | tree (node : Node)
  | trees (nodes : List Node)

/-- The method for a construct, with given rules and levels of nesting. -/
def Construct.method (rules : Rules) (levels : Nat) (construct : Construct) : Method Value :=
  let nested := Parser.expression rules levels
  match construct with
  | program => do give (.tree (← Parser.program nested))
  | statement => do give (.tree (← Parser.statement nested))
  | letStatement => do give (.tree (← Parser.letStatement nested))
  | returnStatement => do give (.tree (← Parser.returnStatement nested))
  | expressionStatement => do give (.tree (← Parser.expressionStatement nested))
  | blockStatement => do give (.tree (← Parser.blockStatement nested))
  | expression precedence => do give (.tree (← nested precedence))
  | identifier => do give (.tree (← Parser.identifier))
  | integerLiteral => do give (.tree (← Parser.integerLiteral))
  | boolean => do give (.tree (← Parser.boolean))
  | prefixExpression => do give (.tree (← Parser.prefixExpression nested))
  | infixExpression left => do give (.tree (← Parser.infixExpression nested left))
  | groupedExpression => do give (.tree (← Parser.groupedExpression nested))
  | ifExpression => do give (.tree (← Parser.ifExpression nested))
  | functionLiteral => do give (.tree (← Parser.functionLiteral nested))
  | functionParameters => do give (.trees (← Parser.functionParameters))
  | callExpression callee => do give (.tree (← Parser.callExpression nested callee))
  | callArguments => do give (.trees (← Parser.callArguments nested))

/-- The method for a call, with given rules and levels of nesting. -/
def Call.method (rules : Rules) (levels : Nat) : Call → Method Value
  | nextToken => do
    advance
    give .nothing
  | curTokenIs kind => do give (.flag (decide ((← current).kind = kind)))
  | peekTokenIs kind => do give (.flag (decide ((← upcoming).kind = kind)))
  | expectPeek kind => do
    expect kind
    give .nothing
  | peekPrecedence => do give (.precedence (.ofKind (← upcoming).kind))
  | curPrecedence => do give (.precedence (.ofKind (← current).kind))
  | parse construct => construct.method rules levels

/-- The window after calls one after the other, whether they have failed or not. -/
def windowAfter (rules : Rules) (levels : Nat) (window : Window) (calls : List Call) : Window :=
  calls.foldl (fun window call => ((call.method rules levels).run window).window) window

end Monkey.Parser
