import Monkey.Token.Scan
import Monkey.Grammar.Expression

/-!
# Parsing a text

A text is a program when its tokens are, read with the rules of the language and a limited
number of levels of nesting.
-/

namespace Monkey

/-- The program that a stream of tokens holds, with given rules and levels of nesting. -/
def parseTokens (rules : Rules) (levels : Nat) (stream : TokenStream) : Except ParseFailure Node :=
  ((Grammar.program (Grammar.expression rules levels)).run stream).result

/-- The program that a text holds, or the first failure. -/
def parse (source : String) (levels : Nat := Grammar.nestingLimit) : Except ParseFailure Node :=
  parseTokens .standard levels (tokens source.toList)

end Monkey
