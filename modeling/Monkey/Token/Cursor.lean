import Monkey.Token.Scan

/-!
# A cursor over a text

The cursor stands on one character, or past the last one, and can be moved by single
characters or by whole tokens. Its two positions differ by one except past the end, where
moving on saturates: the reading position stops one past the length of the text and the
position catches up with it.

Tokens are read here by moving the cursor. That they are the tokens of the remaining text is
not assumed by any definition.
-/

namespace Monkey

/-- A place in a text: the character there, its index, and the index of the character to be
read next. -/
structure Cursor where
  source : Array Char
  position : Nat
  readPosition : Nat
  ch : Option Char
deriving DecidableEq, Repr

namespace Cursor

/-- Move on by one character. -/
def readChar (cursor : Cursor) : Cursor :=
  { cursor with
    ch := cursor.source[cursor.readPosition]?
    position := cursor.readPosition
    readPosition :=
      if cursor.readPosition ≤ cursor.source.size then cursor.readPosition + 1
      else cursor.readPosition }

/-- The cursor on the first character of a text. -/
def ofSource (source : String) : Cursor := readChar ⟨source.toList.toArray, 0, 0, none⟩

/-- The character after the current one. -/
def peekChar (cursor : Cursor) : Option Char := cursor.source[cursor.readPosition]?

/-- A bound on the moves before the cursor stands on no character. -/
def weight (cursor : Cursor) : Nat :=
  2 * (cursor.source.size + 1 - cursor.readPosition) + cursor.ch.isSome.toNat

/-- Moving on from a character lowers the weight. -/
theorem weight_readChar_lt {cursor : Cursor} (h : cursor.ch.isSome) :
    cursor.readChar.weight < cursor.weight := by
  have hbit := Bool.toNat_le cursor.source[cursor.readPosition]?.isSome
  simp only [weight, readChar, h, Bool.toNat_true]
  by_cases hle : cursor.readPosition ≤ cursor.source.size
  · simp only [hle, if_true]
    omega
  · have hnone : cursor.source[cursor.readPosition]? = none :=
      Array.getElem?_eq_none (by omega)
    simp [hle, hnone]

/-- Move on while the characters satisfy a property. -/
def skipWhile (p : Char → Bool) (cursor : Cursor) : Cursor :=
  match _h : cursor.ch with
  | some c => if p c then skipWhile p cursor.readChar else cursor
  | none => cursor
termination_by cursor.weight
decreasing_by exact weight_readChar_lt (by simp [_h])

/-- Moving on never raises the weight. -/
theorem weight_skipWhile_le (p : Char → Bool) (cursor : Cursor) :
    (cursor.skipWhile p).weight ≤ cursor.weight := by
  fun_induction skipWhile p cursor with
  | case1 cursor c h hp ih =>
    exact Nat.le_trans ih (Nat.le_of_lt (weight_readChar_lt (by simp [h])))
  | case2 => exact Nat.le_refl _
  | case3 => exact Nat.le_refl _

/-- Moving on from a character that satisfies the property lowers the weight. -/
theorem weight_skipWhile_lt {p : Char → Bool} {cursor : Cursor} {c : Char}
    (h : cursor.ch = some c) (hp : p c = true) : (cursor.skipWhile p).weight < cursor.weight := by
  rw [skipWhile]
  split
  · rename_i x hx
    obtain rfl : x = c := by simpa [hx] using h
    simp only [hp, if_true]
    exact Nat.lt_of_le_of_lt (weight_skipWhile_le p _) (weight_readChar_lt (by simp [h]))
  · simp_all

/-- The text from the current character to where another cursor stands. -/
def textTo (cursor stop : Cursor) : String :=
  String.ofList (cursor.source.extract cursor.position stop.position).toList

/-- The token that starts with the current character, and the cursor after it. -/
def readLexeme (cursor : Cursor) (c : Char) : Token × Cursor :=
  if isWordStart c then
    let after := cursor.skipWhile isWordChar
    let word := cursor.textTo after
    (⟨.ofWord word, word⟩, after)
  else if isDigit c then
    let after := cursor.skipWhile isDigit
    (⟨.int, cursor.textTo after⟩, after)
  else if c = '=' ∧ cursor.peekChar = some '=' then (⟨.eq, "=="⟩, cursor.readChar.readChar)
  else if c = '=' then (⟨.assign, "="⟩, cursor.readChar)
  else if c = '!' ∧ cursor.peekChar = some '=' then (⟨.notEq, "!="⟩, cursor.readChar.readChar)
  else if c = '!' then (⟨.bang, "!"⟩, cursor.readChar)
  else (⟨.ofPunctuation c, String.singleton c⟩, cursor.readChar)

/-- The next token, the end of input where there is none, and the cursor after it. -/
def nextToken (cursor : Cursor) : Token × Cursor :=
  let start := cursor.skipWhile isBlank
  match start.ch with
  | none => (.endOfInput, start)
  | some c => start.readLexeme c

/-- Moving on never raises the weight, on a character or past the end. -/
theorem weight_readChar_le (cursor : Cursor) : cursor.readChar.weight ≤ cursor.weight := by
  by_cases h : cursor.ch.isSome
  · exact Nat.le_of_lt (weight_readChar_lt h)
  · have hbit := Bool.toNat_le cursor.source[cursor.readPosition]?.isSome
    simp only [weight, readChar]
    by_cases hle : cursor.readPosition ≤ cursor.source.size
    · simp only [hle, if_true]
      omega
    · have hnone : cursor.source[cursor.readPosition]? = none :=
        Array.getElem?_eq_none (by omega)
      simp [hle, hnone]

/-- A token that starts with a character lowers the weight. -/
theorem weight_readLexeme_lt {cursor : Cursor} {c : Char} (h : cursor.ch = some c) :
    (cursor.readLexeme c).2.weight < cursor.weight := by
  have hread : cursor.readChar.weight < cursor.weight := weight_readChar_lt (by simp [h])
  have htwo : cursor.readChar.readChar.weight < cursor.weight :=
    Nat.lt_of_le_of_lt (weight_readChar_le _) hread
  unfold readLexeme
  repeat' split
  · rename_i hword
    exact weight_skipWhile_lt h (isWordChar_of_isWordStart hword)
  · rename_i hdigit
    exact weight_skipWhile_lt h hdigit
  all_goals first | exact hread | exact htwo

/-- A token that is not the end of input lowers the weight. -/
theorem weight_nextToken_lt {cursor : Cursor} (h : cursor.nextToken.1.kind ≠ .eof) :
    cursor.nextToken.2.weight < cursor.weight := by
  unfold nextToken at h ⊢
  simp only at h ⊢
  split at h
  · exact absurd rfl h
  · rename_i c hc
    exact Nat.lt_of_lt_of_le (weight_readLexeme_lt hc) (weight_skipWhile_le isBlank cursor)

/-- A token never raises the weight, not even the end of input. -/
theorem weight_nextToken_le (cursor : Cursor) : cursor.nextToken.2.weight ≤ cursor.weight := by
  unfold nextToken
  dsimp only
  split
  · exact weight_skipWhile_le isBlank cursor
  · rename_i c hc
    exact Nat.le_trans (Nat.le_of_lt (weight_readLexeme_lt hc)) (weight_skipWhile_le isBlank cursor)

/-- The tokens before the end of input, and the cursor after the end of input was read. -/
def readAll (cursor : Cursor) : List Token × Cursor :=
  let next := cursor.nextToken
  if next.1.kind = .eof then ([], next.2)
  else
    let following := readAll next.2
    (next.1 :: following.1, following.2)
termination_by cursor.weight
decreasing_by exact weight_nextToken_lt ‹_›

/-- All remaining tokens with the end of input, and the cursor after it. -/
def tokenize (cursor : Cursor) : List Token × Cursor :=
  let before := cursor.readAll
  (before.1 ++ [.endOfInput], before.2)

/-- At most `n` tokens before the end of input, and the cursor after them; nothing is read
beyond the last of them. -/
def take : Nat → Cursor → List Token × Cursor
  | 0, cursor => ([], cursor)
  | n + 1, cursor =>
    let next := cursor.nextToken
    if next.1.kind = .eof then ([], next.2)
    else
      let following := take n next.2
      (next.1 :: following.1, following.2)

end Cursor

end Monkey
