import Monkey.Token.Cursor

/-!
# The window of a parser

A parser looks at a text through a window of two tokens, the current one and the next one. They have
been pulled from a lexer, which stands after them; going on pulls one more token. At the end of input
the lexer goes on giving that token.

How much is still to be read is measured by what the lexer has left and by which of the two tokens are
not the end of input.
-/

namespace Monkey

/-- Two tokens, and the lexer that gave them. -/
structure Window where
  lexer : Cursor
  cur : Token
  peek : Token
deriving DecidableEq, Repr

namespace Window

/-- Go on by one token. -/
def nextToken (window : Window) : Window :=
  let next := window.lexer.nextToken
  { lexer := next.2, cur := window.peek, peek := next.1 }

/-- The window after going on by a number of tokens. -/
def moved (window : Window) : Nat → Window
  | 0 => window
  | count + 1 => window.nextToken.moved count

/-- The window on the first two tokens that a lexer gives. -/
def ofLexer (lexer : Cursor) : Window :=
  (nextToken ⟨lexer, .endOfInput, .endOfInput⟩).nextToken

/-- The window on the first two tokens of a text. -/
def ofSource (source : String) : Window := ofLexer (.ofSource source)

/-- A bound on what is still to be read. -/
def weight (window : Window) : Nat :=
  3 * window.lexer.weight + 2 * (decide (window.peek.kind ≠ .eof)).toNat +
    (decide (window.cur.kind ≠ .eof)).toNat

/-- There is no more to be read after than before. -/
structure Within (after before : Window) : Prop where
  lexer_le : after.lexer.weight ≤ before.lexer.weight
  weight_le : after.weight ≤ before.weight

variable {window after before last : Window}

theorem Within.refl (window : Window) : window.Within window := ⟨Nat.le_refl _, Nat.le_refl _⟩

theorem Within.trans (h : last.Within after) (h' : after.Within before) : last.Within before :=
  ⟨Nat.le_trans h.lexer_le h'.lexer_le, Nat.le_trans h.weight_le h'.weight_le⟩

/-- Reading a token leaves no more to the lexer, and less unless it is the end of input. -/
theorem weight_lexer_nextToken (window : Window) :
    window.nextToken.lexer.weight + (decide (window.nextToken.peek.kind ≠ .eof)).toNat ≤
      window.lexer.weight := by
  change window.lexer.nextToken.2.weight + (decide (window.lexer.nextToken.1.kind ≠ .eof)).toNat ≤ _
  by_cases heof : window.lexer.nextToken.1.kind = .eof
  · rw [decide_eq_false (not_not_intro heof), Bool.toNat_false]
    exact Cursor.weight_nextToken_le window.lexer
  · rw [decide_eq_true heof, Bool.toNat_true]
    exact Cursor.weight_nextToken_lt heof

/-- Going on leaves no more to be read, and less unless both tokens are the end of input. -/
theorem weight_nextToken (window : Window) :
    window.nextToken.weight + (decide (window.peek.kind ≠ .eof)).toNat +
      (decide (window.cur.kind ≠ .eof)).toNat ≤ window.weight := by
  have hlexer := weight_lexer_nextToken window
  have hbit := Bool.toNat_le (decide (window.nextToken.peek.kind ≠ .eof))
  change 3 * window.nextToken.lexer.weight + 2 * (decide (window.nextToken.peek.kind ≠ .eof)).toNat +
    (decide (window.peek.kind ≠ .eof)).toNat + _ + _ ≤ 3 * window.lexer.weight + 2 * _ + _
  omega

theorem within_nextToken (window : Window) : window.nextToken.Within window where
  lexer_le := Nat.le_of_add_right_le (weight_lexer_nextToken window)
  weight_le := Nat.le_of_add_right_le (Nat.le_of_add_right_le (weight_nextToken window))

theorem moved_add (window : Window) (count further : Nat) :
    window.moved (count + further) = (window.moved count).moved further := by
  induction count generalizing window with
  | zero => rw [Nat.zero_add, moved]
  | succ count ih =>
    rw [Nat.succ_add]
    exact ih window.nextToken

theorem within_moved (window : Window) (count : Nat) : (window.moved count).Within window := by
  induction count generalizing window with
  | zero => exact .refl window
  | succ count ih => exact (ih window.nextToken).trans window.within_nextToken

/-- From a next token other than the end of input going on leaves less to be read. -/
theorem weight_lt_of_peek (hpeek : window.peek.kind ≠ .eof) (h : after.Within window.nextToken) :
    after.weight < window.weight := by
  have hstep := weight_nextToken window
  have hle := h.weight_le
  rw [decide_eq_true hpeek, Bool.toNat_true] at hstep
  omega

/-- Between a token other than the end of input and the token after what is read from it, something has
been read. -/
theorem weight_lt_of_cur (hcur : before.cur.kind ≠ .eof) (h : after.Within before) :
    after.nextToken.weight < before.weight := by
  have hstep := weight_nextToken after
  have hle := h.weight_le
  by_cases hended : after.cur.kind = .eof ∧ after.peek.kind = .eof
  · -- Here going on takes nothing away, but `before` still counts its current token.
    have hafter : after.weight = 3 * after.lexer.weight := by simp [weight, hended]
    have hbefore : 3 * before.lexer.weight < before.weight := by
      simp only [weight, decide_eq_true hcur, Bool.toNat_true]
      omega
    have hlexer := h.lexer_le
    omega
  · have hbits : 0 <
        (decide (after.peek.kind ≠ .eof)).toNat + (decide (after.cur.kind ≠ .eof)).toNat := by
      by_cases hnow : after.cur.kind = .eof
      · simp [hnow, show after.peek.kind ≠ .eof from fun hpeek => hended ⟨hnow, hpeek⟩]
      · simp [hnow]
    omega

end Window

end Monkey
