import Monkey.Grammar.SyntaxError
import Monkey.Grammar.TokenStream

/-!
# Readings

A reading takes tokens off the front of a stream and ends with a value or with a failure. In
both cases it tells which tokens are left, and these are a suffix of those it was given: it
can neither go back nor invent a token. Readings compose so that the first failure ends the
whole.
-/

namespace Monkey

/-- How a reading ended, and the stream it left. -/
inductive Outcome (α : Type) where
  | done (value : α) (rest : TokenStream)
  | failed (failure : ParseFailure) (rest : TokenStream)
deriving Repr

namespace Outcome

variable {α : Type}

/-- The stream that a reading left. -/
def rest : Outcome α → TokenStream
  | done _ stream => stream
  | failed _ stream => stream

/-- The value that was read, or the failure. -/
def result : Outcome α → Except ParseFailure α
  | done value _ => .ok value
  | failed failure _ => .error failure

end Outcome

/-- A way to take tokens off the front of a stream. -/
def Reading (α : Type) : Type :=
  (stream : TokenStream) → { outcome : Outcome α // outcome.rest <:+ stream }

namespace Reading

variable {α β : Type}

/-- How a reading of a stream ends. -/
def run (reading : Reading α) (stream : TokenStream) : Outcome α := (reading stream).val

/-- What a reading leaves is a suffix of what it was given. -/
theorem rest_run_suffix (reading : Reading α) (stream : TokenStream) :
    (reading.run stream).rest <:+ stream := (reading stream).property

/-- Read nothing. -/
def give (value : α) : Reading α := fun stream => ⟨.done value stream, List.suffix_refl stream⟩

/-- Read nothing and fail. -/
def fail (failure : ParseFailure) : Reading α := fun stream =>
  ⟨.failed failure stream, List.suffix_refl stream⟩

/-- Read one thing and then, unless that failed, what follows it. -/
def andThen (first : Reading α) (following : α → Reading β) : Reading β := fun stream =>
  match first stream with
  | ⟨.done value rest, h⟩ =>
    match following value rest with
    | ⟨outcome, h'⟩ => ⟨outcome, h'.trans h⟩
  | ⟨.failed failure rest, h⟩ => ⟨.failed failure rest, h⟩

instance : Monad Reading where
  pure := give
  bind := andThen

/-- The current token. -/
def current : Reading Token := fun stream => ⟨.done stream.cur stream, List.suffix_refl stream⟩

/-- The token after the current one. -/
def upcoming : Reading Token := fun stream => ⟨.done stream.peek stream, List.suffix_refl stream⟩

/-- Go on to the next token. -/
def advance : Reading Unit := fun stream =>
  ⟨.done () stream.advance, TokenStream.advance_suffix stream⟩

/-- Fail with a syntax error. -/
def reject (error : SyntaxError) : Reading α := fail (.invalid error)

/-- Go on to the next token if it has the given kind. -/
def expect (kind : TokenKind) : Reading Unit := do
  let next ← upcoming
  if next.kind = kind then advance else reject (.unexpectedToken kind next)

/-- Go on to the next token if it has the given kind, and stay otherwise. -/
def skip (kind : TokenKind) : Reading Unit := do
  let next ← upcoming
  if next.kind = kind then advance else give ()

@[simp]
theorem run_pure (value : α) (stream : TokenStream) :
    (pure value : Reading α).run stream = .done value stream := rfl

@[simp]
theorem run_give (value : α) (stream : TokenStream) :
    (give value).run stream = .done value stream := rfl

@[simp]
theorem run_fail (failure : ParseFailure) (stream : TokenStream) :
    (fail failure : Reading α).run stream = .failed failure stream := rfl

@[simp]
theorem run_reject (error : SyntaxError) (stream : TokenStream) :
    (reject error : Reading α).run stream = .failed (.invalid error) stream := rfl

@[simp]
theorem run_current (stream : TokenStream) : current.run stream = .done stream.cur stream := rfl

@[simp]
theorem run_upcoming (stream : TokenStream) : upcoming.run stream = .done stream.peek stream := rfl

@[simp]
theorem run_advance (stream : TokenStream) : advance.run stream = .done () stream.advance := rfl

/-- A reading that goes on from the value of another one goes on from where that one ended. -/
theorem run_bind (first : Reading α) (following : α → Reading β) (stream : TokenStream) :
    (first >>= following).run stream =
      match first.run stream with
      | .done value rest => (following value).run rest
      | .failed failure rest => .failed failure rest := by
  change (andThen first following stream).val = _
  unfold andThen run
  split
  · rename_i value rest h heq
    simp [heq]
  · rename_i failure rest h heq
    simp [heq]

/-- A failed expectation leaves the stream as it was. -/
theorem run_expect (kind : TokenKind) (stream : TokenStream) :
    (expect kind).run stream =
      if stream.peek.kind = kind then .done () stream.advance
      else .failed (.invalid (.unexpectedToken kind stream.peek)) stream := by
  simp only [expect, run_bind, run_upcoming]
  split <;> rfl

theorem run_skip (kind : TokenKind) (stream : TokenStream) :
    (skip kind).run stream =
      .done () (if stream.peek.kind = kind then stream.advance else stream) := by
  simp only [skip, run_bind, run_upcoming]
  split <;> rfl

end Reading

end Monkey
