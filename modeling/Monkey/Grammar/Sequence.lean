import Monkey.Grammar.Reading

/-!
# Sequences

Two ways to read a thing several times: members between parentheses, with commas between them,
and things one after the other up to a closing token. Both loops end because every turn takes
a token off the stream. Neither leaves its last token: the closing token is the current one
afterwards.
-/

namespace Monkey.Grammar

open Reading

variable {α : Type}

/-- More members of a list after those read so far, the last of which comes first. -/
def membersAfter (item : Reading α) (read : List α) (stream : TokenStream) :
    { outcome : Outcome (List α) // outcome.rest <:+ stream } :=
  if _h : stream.peek.kind = .comma then
    match item stream.advance with
    | ⟨.failed failure rest, hrest⟩ =>
      ⟨.failed failure rest, hrest.trans (TokenStream.advance_suffix stream)⟩
    | ⟨.done member rest, hrest⟩ =>
      match membersAfter item (member :: read) rest with
      | ⟨outcome, houtcome⟩ =>
        ⟨outcome, houtcome.trans (hrest.trans (TokenStream.advance_suffix stream))⟩
  else ⟨.done read.reverse stream, List.suffix_refl stream⟩
termination_by stream.length
decreasing_by
  have hpeek : stream.peek.kind ≠ .eof := by simp [_h]
  exact Nat.lt_of_le_of_lt hrest.length_le (TokenStream.length_advance_lt_of_peek hpeek)

/-- The members of a list that follow its first one, after a comma each. -/
def members (item : Reading α) (first : α) : Reading (List α) := membersAfter item [first]

/-- A comma is followed by a member, and anything else ends the list. -/
theorem membersAfter_eq (item : Reading α) (read : List α) (stream : TokenStream) :
    (membersAfter item read stream).val =
      if stream.peek.kind = .comma then
        match item.run stream.advance with
        | .done member rest => (membersAfter item (member :: read) rest).val
        | .failed failure rest => .failed failure rest
      else .done read.reverse stream := by
  rw [membersAfter]
  by_cases hcomma : stream.peek.kind = .comma
  · rw [dif_pos hcomma, if_pos hcomma]
    unfold run
    rcases item stream.advance with ⟨_ | _, _⟩ <;> rfl
  · rw [dif_neg hcomma, if_neg hcomma]

/-- The members of a list in parentheses, from the opening one to the closing one. A member is
read from the token before it. -/
def parenthesized (item : Reading α) : Reading (List α) := do
  if (← upcoming).kind = .rparen then
    advance
    give []
  else
    let first ← item
    let all ← members item first
    expect .rparen
    give all

/-- Things up to a token of the closing kind or the end of input, after those read so far, the
last of which comes first. -/
def untilAfter (closer : TokenKind) (one : Reading α) (read : List α) (stream : TokenStream) :
    { outcome : Outcome (List α) // outcome.rest <:+ stream } :=
  if _h : stream.cur.kind = closer ∨ stream.cur.kind = .eof then
    ⟨.done read.reverse stream, List.suffix_refl stream⟩
  else
    match one stream with
    | ⟨.failed failure rest, hrest⟩ => ⟨.failed failure rest, hrest⟩
    | ⟨.done thing rest, hrest⟩ =>
      match untilAfter closer one (thing :: read) rest.advance with
      | ⟨outcome, houtcome⟩ =>
        ⟨outcome, houtcome.trans ((TokenStream.advance_suffix rest).trans hrest)⟩
termination_by stream.length
decreasing_by
  have hshort := TokenStream.length_advance_lt_of_cur (fun heof => _h (Or.inr heof))
  have hle : rest.length ≤ stream.length := hrest.length_le
  simp only [TokenStream.advance, List.length_tail] at hshort ⊢
  omega

/-- Things up to a token of the closing kind or the end of input. -/
def allUntil (closer : TokenKind) (one : Reading α) : Reading (List α) := untilAfter closer one []

/-- Each turn reads one thing and goes on to the token after it. -/
theorem untilAfter_eq (closer : TokenKind) (one : Reading α) (read : List α)
    (stream : TokenStream) :
    (untilAfter closer one read stream).val =
      if stream.cur.kind = closer ∨ stream.cur.kind = .eof then .done read.reverse stream
      else
        match one.run stream with
        | .done thing rest => (untilAfter closer one (thing :: read) rest.advance).val
        | .failed failure rest => .failed failure rest := by
  rw [untilAfter]
  by_cases hend : stream.cur.kind = closer ∨ stream.cur.kind = .eof
  · rw [dif_pos hend, if_pos hend]
  · rw [dif_neg hend, if_neg hend]
    unfold run
    rcases one stream with ⟨_ | _, _⟩ <;> rfl

end Monkey.Grammar
