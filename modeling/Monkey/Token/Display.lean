import Monkey.Token
import Monkey.Text.Quoted

/-!
# Tokens in messages

A message names a token by its kind and its quoted text; the end of input has no text to show.
-/

namespace Monkey.Token

/-- How a message names a token. -/
def display (token : Token) : String :=
  if token.kind = .eof then "end-of-input"
  else token.kind.name ++ "(" ++ Text.quoted token.literal ++ ")"

end Monkey.Token
