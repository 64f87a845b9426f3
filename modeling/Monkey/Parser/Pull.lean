import Monkey.Parser.Stack
import Monkey.Token.Cursor

/-!
# Tokens within a stack

A lexer has methods of its own: to skip blanks, to read a word or a number, and others below these. A stack
can run out in any of them, and the cursor is then left where it has got to. A token that is read
nevertheless is the next token of the text.
-/

namespace Monkey

namespace Cursor

variable {less more : Stack}

/-- Go on if there is room, and stay without a token otherwise. -/
def goOn (cursor : Cursor) (fits : Bool) (next : Option Token × Cursor) : Option Token × Cursor :=
  if fits then next else (none, cursor)

/-- The token that starts with the current character, if the stack does not run out, and where the cursor
has got to. A word and a number are read by methods that go on by single characters. -/
def readLexemeWithin (stack : Stack) (cursor : Cursor) (c : Char) : Option Token × Cursor :=
  let next := cursor.readLexeme c
  let made := next.2.goOn (stack.fits .token) (some next.1, next.2)
  if isWordStart c then
    let read := next.2.goOn (stack.fits .keyword) made
    cursor.goOn (stack.fitsCall .look) (cursor.goOn (stack.fitsCall .character) read)
  else if isDigit c then
    cursor.goOn (stack.fitsCall .compare) (cursor.goOn (stack.fitsCall .character) made)
  else cursor.goOn (stack.fits .compare) (cursor.goOn (stack.fits .character) made)

/-- The token that starts where blanks have been skipped to, if the stack does not run out. -/
def readTokenWithin (stack : Stack) (start : Cursor) : Option Token × Cursor :=
  match start.ch with
  | none => start.goOn (stack.fits .token) (some .endOfInput, start)
  | some c => start.goOn (stack.fits .look) (start.readLexemeWithin stack c)

/-- The token after blanks, if the stack does not run out, and where the cursor has got to. Each turn of the
loop over blanks takes as many frames as the first one. -/
def afterBlanksWithin (stack : Stack) (cursor : Cursor) : Option Token × Cursor :=
  let read := (cursor.skipWhile isBlank).readTokenWithin stack
  cursor.goOn (stack.fitsCall .compare) <|
    if cursor.ch.any isBlank then cursor.goOn (stack.fitsCall .character) read else read

/-- The next token, read in a frame of its own. -/
def nextTokenWithin (stack : Stack) (cursor : Cursor) : Option Token × Cursor :=
  cursor.goOn (stack.holds 1) (cursor.afterBlanksWithin stack.enter)

/-- A greater stack reads the given token unless it runs out, and a stack reads what a greater one reads
unless it runs out itself. -/
def Agree (next : Token × Cursor) (short long : Option Token × Cursor) : Prop :=
  (short.1 = none ∨ short = long) ∧ (long.1 = none ∨ long = (some next.1, next.2))

variable {next : Token × Cursor} {short long : Option Token × Cursor}

theorem agree_next (next : Token × Cursor) : Agree next (some next.1, next.2) (some next.1, next.2) :=
  ⟨.inr rfl, .inr rfl⟩

theorem Agree.goOn {fits fits' : Bool} (h : Agree next short long) (hfits : fits = true → fits' = true)
    (cursor : Cursor) : Agree next (cursor.goOn fits short) (cursor.goOn fits' long) := by
  cases fits with
  | false =>
    refine ⟨.inl rfl, ?_⟩
    cases fits' with
    | false => exact .inl rfl
    | true => exact h.2
  | true =>
    rw [hfits rfl]
    exact h

theorem agree_readLexemeWithin (hle : less ≤ more) (cursor : Cursor) (c : Char) :
    Agree (cursor.readLexeme c) (cursor.readLexemeWithin less c) (cursor.readLexemeWithin more c) := by
  have htoken : less.fits .token = true → more.fits .token = true := Stack.fits_of_le hle
  have hkeyword : less.fits .keyword = true → more.fits .keyword = true := Stack.fits_of_le hle
  have hmade := (agree_next (cursor.readLexeme c)).goOn htoken (cursor.readLexeme c).2
  unfold readLexemeWithin
  dsimp only
  split
  · have hread := hmade.goOn hkeyword (cursor.readLexeme c).2
    exact (hread.goOn (Stack.fitsCall_of_le hle) cursor).goOn (Stack.fitsCall_of_le hle) cursor
  · split
    · exact (hmade.goOn (Stack.fitsCall_of_le hle) cursor).goOn (Stack.fitsCall_of_le hle) cursor
    · exact (hmade.goOn (Stack.fits_of_le hle) cursor).goOn (Stack.fits_of_le hle) cursor

theorem agree_readTokenWithin (hle : less ≤ more) (cursor : Cursor) :
    Agree cursor.nextToken ((cursor.skipWhile isBlank).readTokenWithin less)
      ((cursor.skipWhile isBlank).readTokenWithin more) := by
  unfold readTokenWithin nextToken
  cases hch : (cursor.skipWhile isBlank).ch with
  | none =>
    simp only [hch]
    exact (agree_next _).goOn (Stack.fits_of_le hle) _
  | some c =>
    simp only [hch]
    exact (agree_readLexemeWithin hle _ c).goOn (Stack.fits_of_le hle) _

theorem agree_afterBlanksWithin (hle : less ≤ more) (cursor : Cursor) :
    Agree cursor.nextToken (cursor.afterBlanksWithin less) (cursor.afterBlanksWithin more) := by
  have hread := agree_readTokenWithin hle cursor
  refine Agree.goOn ?_ (Stack.fitsCall_of_le hle) cursor
  split
  · exact hread.goOn (Stack.fitsCall_of_le hle) cursor
  · exact hread

theorem agree_nextTokenWithin (hle : less ≤ more) (cursor : Cursor) :
    Agree cursor.nextToken (cursor.nextTokenWithin less) (cursor.nextTokenWithin more) :=
  (agree_afterBlanksWithin (Stack.enter_le_enter hle) cursor).goOn (hle.1 1) cursor

theorem settled_goOn {depth : Operation → Nat} {fits : Stack → Bool} {next : Stack → Option Token × Cursor}
    (hfits : Stack.Settled depth fits) (h : Stack.Settled depth next) (cursor : Cursor) :
    Stack.Settled depth fun stack => cursor.goOn (fits stack) (next stack) :=
  hfits.ite h (Stack.settled_const depth _)

theorem settled_readLexemeWithin (depth : Operation → Nat) (cursor : Cursor) (c : Char) :
    Stack.Settled depth fun stack => cursor.readLexemeWithin stack c := by
  have hnext := Stack.settled_const depth (some (cursor.readLexeme c).1, (cursor.readLexeme c).2)
  have hmade := settled_goOn (Stack.settled_fits depth .token) hnext (cursor.readLexeme c).2
  unfold readLexemeWithin
  dsimp only
  split
  · have hread := settled_goOn (Stack.settled_fits depth .keyword) hmade (cursor.readLexeme c).2
    exact settled_goOn (Stack.settled_fitsCall depth .look)
      (settled_goOn (Stack.settled_fitsCall depth .character) hread cursor) cursor
  · split
    · exact settled_goOn (Stack.settled_fitsCall depth .compare)
        (settled_goOn (Stack.settled_fitsCall depth .character) hmade cursor) cursor
    · exact settled_goOn (Stack.settled_fits depth .compare)
        (settled_goOn (Stack.settled_fits depth .character) hmade cursor) cursor

theorem settled_readTokenWithin (depth : Operation → Nat) (start : Cursor) :
    Stack.Settled depth fun stack => start.readTokenWithin stack := by
  unfold readTokenWithin
  cases start.ch with
  | none => exact settled_goOn (Stack.settled_fits depth .token) (Stack.settled_const depth _) _
  | some c => exact settled_goOn (Stack.settled_fits depth .look) (settled_readLexemeWithin depth _ c) _

theorem settled_afterBlanksWithin (depth : Operation → Nat) (cursor : Cursor) :
    Stack.Settled depth fun stack => cursor.afterBlanksWithin stack := by
  have hread := settled_readTokenWithin depth (cursor.skipWhile isBlank)
  unfold afterBlanksWithin
  refine settled_goOn (Stack.settled_fitsCall depth .compare) ?_ cursor
  split
  · exact settled_goOn (Stack.settled_fitsCall depth .character) hread cursor
  · exact hread

theorem settled_nextTokenWithin (depth : Operation → Nat) (cursor : Cursor) :
    Stack.Settled depth fun stack => cursor.nextTokenWithin stack :=
  settled_goOn (Stack.settled_holds depth 1) (settled_afterBlanksWithin depth cursor).enter cursor

theorem readLexemeWithin_unlimited (cursor : Cursor) (c : Char) :
    cursor.readLexemeWithin .unlimited c = (some (cursor.readLexeme c).1, (cursor.readLexeme c).2) := by
  unfold readLexemeWithin
  repeat' split
  all_goals rfl

/-- Without an end of the stack the next token is always read. -/
theorem nextTokenWithin_unlimited (cursor : Cursor) :
    cursor.nextTokenWithin .unlimited = (some cursor.nextToken.1, cursor.nextToken.2) := by
  have hread : (cursor.skipWhile isBlank).readTokenWithin .unlimited =
      (some cursor.nextToken.1, cursor.nextToken.2) := by
    unfold readTokenWithin nextToken
    cases hch : (cursor.skipWhile isBlank).ch with
    | none =>
      simp only [hch]
      rfl
    | some c =>
      simp only [hch]
      exact readLexemeWithin_unlimited _ c
  change (if cursor.ch.any isBlank then cursor.goOn true _ else _) = _
  split
  · exact hread
  · exact hread

end Cursor

end Monkey
