import Monkey.Token.Display
import Monkey.Text.Decimal

/-!
# Syntax errors

The first violation of the grammar ends a parse. An error names the token at which it was
noticed. A number whose text cannot be converted at all is a failure of its own, which is not
a syntax error and is not reported as one.
-/

namespace Monkey

/-- A violation of the grammar, with the token at which it was noticed. -/
inductive SyntaxError where
  /-- A token of a certain kind had to follow. -/
  | unexpectedToken (expected : TokenKind) (found : Token)
  /-- No expression starts with the token. -/
  | missingPrefixRule (found : Token)
  /-- The token binds an expression but there is no rule for it. -/
  | missingInfixRule (found : Token)
  /-- The number is above the largest integer. -/
  | invalidInteger (found : Token)
  /-- Expressions are nested more deeply than is followed. -/
  | nestingTooDeep (found : Token)
deriving DecidableEq, Repr

namespace SyntaxError

/-- The names of the kinds of errors, in the order in which they are listed. -/
def kindNames : List String :=
  ["UNEXPECTED_TOKEN", "MISSING_PREFIX_RULE", "MISSING_INFIX_RULE", "INVALID_INTEGER",
   "NESTING_TOO_DEEP"]

/-- The name of the kind of an error. -/
def kindName : SyntaxError → String
  | unexpectedToken .. => "UNEXPECTED_TOKEN"
  | missingPrefixRule _ => "MISSING_PREFIX_RULE"
  | missingInfixRule _ => "MISSING_INFIX_RULE"
  | invalidInteger _ => "INVALID_INTEGER"
  | nestingTooDeep _ => "NESTING_TOO_DEEP"

/-- The name of every kind of error is listed. -/
theorem kindName_mem (error : SyntaxError) : error.kindName ∈ kindNames := by
  cases error <;> simp [kindName, kindNames]

/-- The token at which an error was noticed. -/
def found : SyntaxError → Token
  | unexpectedToken _ token | missingPrefixRule token | missingInfixRule token
  | invalidInteger token | nestingTooDeep token => token

/-- The kind of token that was required, where one was. -/
def expected? : SyntaxError → Option TokenKind
  | unexpectedToken kind _ => some kind
  | _ => none

/-- The wording of an error. -/
def message : SyntaxError → String
  | unexpectedToken kind token =>
    "[PAR-0010] expected next token to be " ++ kind.name ++ ", got " ++ token.display ++ " instead"
  | missingPrefixRule token => "[PAR-0020] no prefix parse function for " ++ token.kind.name
  | missingInfixRule token => "[PAR-0021] no infix parse function for " ++ token.kind.name
  | invalidInteger token =>
    "[PAR-0030] integer literal '" ++ token.literal ++ "' out of 64-bit signed range"
  | nestingTooDeep token => "[PAR-0040] input nested too deeply, stopped at " ++ token.display

end SyntaxError

/-- What can end a parse before the end of input. -/
inductive ParseFailure where
  /-- The grammar is violated. -/
  | invalid (error : SyntaxError)
  /-- The text of a number is not converted. -/
  | unreadable (error : Text.NumeralError)
deriving DecidableEq, Repr

end Monkey
