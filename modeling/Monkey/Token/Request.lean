import Monkey.Token.Cursor

/-!
# Requests to a cursor

A cursor can be asked for single characters and for tokens in any order, one at a time, several or all
that are left. Every request is answered from where the one before it left the cursor.
-/

namespace Monkey.Cursor

/-- What a cursor can be asked for. -/
inductive Request where
  /-- Move on by one character. -/
  | readChar
  /-- The character after the current one. -/
  | peekChar
  /-- The next token. -/
  | nextToken
  /-- All tokens that are left, with the end of input. -/
  | tokenize
  /-- All tokens that are left, without the end of input. -/
  | iterate
  /-- At most so many of the tokens that are left. -/
  | take (count : Nat)
deriving DecidableEq, Repr

/-- What a request is answered with. -/
inductive Answer where
  | done
  | char (c : Option Char)
  | token (token : Token)
  | tokens (list : List Token)
deriving DecidableEq, Repr

/-- The answer to a request, and the cursor after it. -/
def respond (cursor : Cursor) : Request → Answer × Cursor
  | .readChar => (.done, cursor.readChar)
  | .peekChar => (.char cursor.peekChar, cursor)
  | .nextToken => (.token cursor.nextToken.1, cursor.nextToken.2)
  | .tokenize => (.tokens cursor.tokenize.1, cursor.tokenize.2)
  | .iterate => (.tokens cursor.readAll.1, cursor.readAll.2)
  | .take count => (.tokens (cursor.take count).1, (cursor.take count).2)

/-- The answers to requests one after the other, and the cursor after them. -/
def respondAll (cursor : Cursor) : List Request → List Answer × Cursor
  | [] => ([], cursor)
  | request :: requests =>
    let first := cursor.respond request
    let others := first.2.respondAll requests
    (first.1 :: others.1, others.2)

end Monkey.Cursor
