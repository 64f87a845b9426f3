import Monkey.Token

/-!
# Token streams

A stream holds the tokens from the current one on; past its last token it goes on with the end
of input for ever. The two tokens in front, the current one and the one after it, are the only
ones that are ever looked at.
-/

namespace Monkey

/-- The tokens from the current one on, followed by the end of input for ever. -/
abbrev TokenStream := List Token

namespace TokenStream

/-- The current token. -/
def cur (stream : TokenStream) : Token := stream.headD .endOfInput

/-- The token after the current one. -/
def peek (stream : TokenStream) : Token := stream.tail.headD .endOfInput

/-- The stream from the next token on. -/
def advance (stream : TokenStream) : TokenStream := stream.tail

@[simp]
theorem cur_nil : cur [] = .endOfInput := rfl

@[simp]
theorem cur_cons (token : Token) (rest : List Token) : cur (token :: rest) = token := rfl

@[simp]
theorem peek_nil : peek [] = .endOfInput := rfl

@[simp]
theorem peek_cons (token : Token) (rest : List Token) : peek (token :: rest) = cur rest := rfl

@[simp]
theorem advance_nil : advance [] = [] := rfl

@[simp]
theorem advance_cons (token : Token) (rest : List Token) : advance (token :: rest) = rest := rfl

/-- A stream on a token other than the end of input starts with it. -/
theorem eq_cons_of_cur (stream : TokenStream) (h : stream.cur.kind ≠ .eof) :
    stream = stream.cur :: stream.advance := by
  cases stream with
  | nil => exact absurd rfl h
  | cons token rest => rfl

/-- What follows the current token starts with the next one, unless that is the end of input. -/
theorem advance_eq_cons_of_peek (stream : TokenStream) (h : stream.peek.kind ≠ .eof) :
    stream.advance = stream.peek :: stream.advance.advance :=
  eq_cons_of_cur stream.advance h

/-- What was the token after the current one is the current one after advancing. -/
theorem cur_advance (stream : TokenStream) : cur (advance stream) = peek stream := rfl

/-- Advancing leaves a suffix. -/
theorem advance_suffix (stream : TokenStream) : advance stream <:+ stream :=
  List.tail_suffix stream

/-- A stream on a token other than the end of input gets shorter by advancing. -/
theorem length_advance_lt_of_cur {stream : TokenStream} (h : (cur stream).kind ≠ .eof) :
    (advance stream).length < stream.length := by
  cases stream with
  | nil => exact absurd rfl h
  | cons token rest => simp [advance]

/-- A stream whose next token is other than the end of input gets shorter by advancing. -/
theorem length_advance_lt_of_peek {stream : TokenStream} (h : (peek stream).kind ≠ .eof) :
    (advance stream).length < stream.length := by
  cases stream with
  | nil => exact absurd rfl h
  | cons token rest => simp [advance]

end TokenStream

end Monkey
