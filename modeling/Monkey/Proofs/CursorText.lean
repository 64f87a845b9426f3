import Monkey.Proofs.Lexeme
import Monkey.Token.Cursor

/-!
# The text that a cursor has left

A cursor that starts on the first character of a text keeps its three fields coupled: its character is
the one at its position, and the reading position is one further, except that both stop one past the
length of the text. What such a cursor reads is determined by the text from its position on. Every move
of the cursor is an operation on that text, and the tokens it reads are those that the text is scanned
into.
-/

namespace Monkey

namespace Cursor

/-- The fields of a cursor agree with each other. Past the end both positions stay where they are. -/
structure Valid (cursor : Cursor) : Prop where
  ch_eq : cursor.ch = cursor.source[cursor.position]?
  position_le : cursor.position ≤ cursor.source.size + 1
  readPosition_eq : cursor.readPosition = min (cursor.position + 1) (cursor.source.size + 1)

/-- The text from the current character on. -/
def remaining (cursor : Cursor) : List Char := cursor.source.toList.drop cursor.position

variable {cursor : Cursor} {p : Char → Bool} {c : Char} {rest : List Char}

/-- A new cursor has the whole text left. -/
theorem remaining_ofSource (source : String) : (ofSource source).remaining = source.toList := by
  simp [ofSource, readChar, remaining]

theorem valid_ofSource (source : String) : (ofSource source).Valid where
  ch_eq := rfl
  position_le := Nat.zero_le _
  readPosition_eq := by simp [ofSource, readChar]

namespace Valid

/-! ## Single characters -/

/-- The current character is the first one of the remaining text. -/
theorem head?_remaining (h : cursor.Valid) : cursor.remaining.head? = cursor.ch := by
  rw [h.ch_eq, remaining, List.head?_drop, Array.getElem?_toList]

/-- A cursor on a character has a text left that starts with it. -/
theorem exists_remaining_eq_cons (h : cursor.Valid) (hch : cursor.ch = some c) :
    ∃ rest, cursor.remaining = c :: rest :=
  List.head?_eq_some_iff.mp (h.head?_remaining.trans hch)

/-- The reading position is on the second character of the remaining text, or past the end. -/
theorem getElem?_readPosition (h : cursor.Valid) :
    cursor.source[cursor.readPosition]? = cursor.source[cursor.position + 1]? := by
  have := h.readPosition_eq
  by_cases hle : cursor.position ≤ cursor.source.size
  · rw [show cursor.readPosition = cursor.position + 1 by omega]
  · rw [Array.getElem?_eq_none (by omega), Array.getElem?_eq_none (by omega)]

/-- The character after the current one is the second one of the remaining text. -/
theorem peekChar_eq (h : cursor.Valid) : cursor.peekChar = cursor.remaining.tail.head? := by
  rw [peekChar, h.getElem?_readPosition, remaining, List.tail_drop, List.head?_drop,
    Array.getElem?_toList]

theorem readChar (h : cursor.Valid) : cursor.readChar.Valid where
  ch_eq := rfl
  position_le := by
    have := h.readPosition_eq
    simp only [Cursor.readChar]
    omega
  readPosition_eq := by
    have := h.readPosition_eq
    simp only [Cursor.readChar]
    split <;> omega

/-- Moving on by one character drops it. -/
theorem remaining_readChar (h : cursor.Valid) : cursor.readChar.remaining = cursor.remaining.tail := by
  have := h.readPosition_eq
  simp only [remaining, Cursor.readChar, List.tail_drop]
  by_cases hle : cursor.position ≤ cursor.source.size
  · rw [show cursor.readPosition = cursor.position + 1 by omega]
  · rw [List.drop_eq_nil_of_le, List.drop_eq_nil_of_le] <;> simp only [Array.length_toList] <;> omega

/-- On a character the position advances by one. -/
theorem position_readChar (h : cursor.Valid) (hch : cursor.ch = some c) :
    cursor.readChar.position = cursor.position + 1 := by
  have hlt : cursor.position < cursor.source.size := by
    rw [h.ch_eq] at hch
    exact (Array.getElem?_eq_some_iff.mp hch).1
  have := h.readPosition_eq
  simp only [Cursor.readChar]
  omega

end Valid

/-! ## Runs of characters -/

/-- From one place to another on the same text some characters are taken and the others are left. -/
structure Reads (cursor after : Cursor) (taken left : List Char) : Prop where
  valid : after.Valid
  source_eq : after.source = cursor.source
  position_eq : after.position = cursor.position + taken.length
  remaining_eq : cursor.remaining = taken ++ left
  remaining_after : after.remaining = left

namespace Reads

variable {after last : Cursor} {taken left more : List Char}

theorem refl (h : cursor.Valid) : cursor.Reads cursor [] cursor.remaining :=
  ⟨h, rfl, rfl, rfl, rfl⟩

theorem trans (h : cursor.Reads after taken (more ++ left)) (h' : after.Reads last more left) :
    cursor.Reads last (taken ++ more) left where
  valid := h'.valid
  source_eq := h'.source_eq.trans h.source_eq
  position_eq := by
    rw [h'.position_eq, h.position_eq, List.length_append, Nat.add_assoc]
  remaining_eq := by rw [h.remaining_eq, List.append_assoc]
  remaining_after := h'.remaining_after

/-- The text between two places of a cursor is what was read between them. -/
theorem textTo_eq (h : cursor.Reads after taken left) : cursor.textTo after = String.ofList taken := by
  have htake : (cursor.source.extract cursor.position after.position).toList =
      cursor.remaining.take taken.length := by
    rw [Array.toList_extract, List.extract_eq_take_drop, h.position_eq, Nat.add_sub_cancel_left]
    rfl
  rw [textTo, htake, h.remaining_eq, List.take_left]

end Reads

namespace Valid

theorem reads_readChar (h : cursor.Valid) (hrest : cursor.remaining = c :: rest) :
    cursor.Reads cursor.readChar [c] rest where
  valid := h.readChar
  source_eq := rfl
  position_eq := h.position_readChar (by rw [← h.head?_remaining, hrest]; rfl)
  remaining_eq := hrest
  remaining_after := by rw [h.remaining_readChar, hrest]; rfl

/-- Moving on while a property holds takes the longest run of characters that have it. -/
theorem reads_skipWhile (h : cursor.Valid) (p : Char → Bool) :
    cursor.Reads (cursor.skipWhile p) (cursor.remaining.takeWhile p)
      (cursor.remaining.dropWhile p) := by
  fun_induction skipWhile p cursor with
  | case1 cursor c hch hp ih =>
    obtain ⟨rest, hrest⟩ := h.exists_remaining_eq_cons hch
    have hstep := h.reads_readChar hrest
    have hmore := ih h.readChar
    rw [hstep.remaining_after] at hmore
    rw [hrest, List.takeWhile_cons_of_pos hp, List.dropWhile_cons_of_pos hp]
    have hsplit : cursor.Reads cursor.readChar [c] (rest.takeWhile p ++ rest.dropWhile p) := by
      rwa [List.takeWhile_append_dropWhile]
    exact hsplit.trans hmore
  | case2 cursor c hch hp =>
    obtain ⟨rest, hrest⟩ := h.exists_remaining_eq_cons hch
    rw [hrest, List.takeWhile_cons_of_neg hp, List.dropWhile_cons_of_neg hp, ← hrest]
    exact .refl h
  | case3 cursor hch =>
    have hhead := h.head?_remaining
    rw [hch, List.head?_eq_none_iff] at hhead
    simpa [hhead] using Reads.refl h

/-! ## Tokens -/

/-- The token at the cursor is the one at the front of the remaining text. -/
theorem readLexeme (h : cursor.Valid) (hrest : cursor.remaining = c :: rest) :
    (cursor.readLexeme c).1 = (scanLexeme c rest).1 ∧ (cursor.readLexeme c).2.Valid ∧
      (cursor.readLexeme c).2.remaining = (scanLexeme c rest).2 := by
  have hone := h.reads_readChar hrest
  have hpeek : cursor.peekChar = rest.head? := by rw [h.peekChar_eq, hrest]; rfl
  have hrun : ∀ p : Char → Bool, p c = true →
      cursor.Reads (cursor.skipWhile p) (c :: rest.takeWhile p) (rest.dropWhile p) := by
    intro p hp
    have hskip := h.reads_skipWhile p
    rwa [hrest, List.takeWhile_cons_of_pos hp, List.dropWhile_cons_of_pos hp] at hskip
  have htwo : cursor.readChar.readChar.Valid ∧ cursor.readChar.readChar.remaining = rest.tail :=
    ⟨hone.valid.readChar, by rw [hone.valid.remaining_readChar, hone.remaining_after]⟩
  unfold Cursor.readLexeme scanLexeme
  rw [hpeek]
  by_cases hword : isWordStart c = true
  · have hreads := hrun isWordChar (isWordChar_of_isWordStart hword)
    rw [if_pos hword, if_pos hword]
    simp only [hreads.textTo_eq]
    exact ⟨trivial, hreads.valid, hreads.remaining_after⟩
  · rw [if_neg hword, if_neg hword]
    by_cases hdigit : isDigit c = true
    · have hreads := hrun isDigit hdigit
      rw [if_pos hdigit, if_pos hdigit]
      simp only [hreads.textTo_eq]
      exact ⟨trivial, hreads.valid, hreads.remaining_after⟩
    · rw [if_neg hdigit, if_neg hdigit]
      repeat' split
      all_goals first
        | exact ⟨rfl, hone.valid, hone.remaining_after⟩
        | exact ⟨rfl, htwo⟩

/-- The next token is the first one of the remaining text. -/
theorem nextToken (h : cursor.Valid) :
    cursor.nextToken.2.Valid ∧ match scan cursor.remaining with
      | none => cursor.nextToken.1 = .endOfInput
      | some (token, rest) => cursor.nextToken.1 = token ∧ cursor.nextToken.2.remaining = rest := by
  have hskip := h.reads_skipWhile isBlank
  have hhead := hskip.valid.head?_remaining
  rw [hskip.remaining_after] at hhead
  unfold scan Cursor.nextToken
  cases hdrop : cursor.remaining.dropWhile isBlank with
  | nil =>
    rw [hdrop, List.head?_nil] at hhead
    simp only [← hhead]
    exact ⟨hskip.valid, trivial⟩
  | cons c rest =>
    rw [hdrop, List.head?_cons] at hhead
    simp only [← hhead]
    obtain ⟨htoken, hvalid, hrest⟩ :=
      hskip.valid.readLexeme (hskip.remaining_after.trans hdrop)
    exact ⟨hvalid, htoken, hrest⟩

/-- All tokens that are left are those of the remaining text. -/
theorem readAll_eq (h : cursor.Valid) : cursor.readAll.1 = tokens cursor.remaining := by
  fun_induction Cursor.readAll cursor with
  | case1 cursor next heof =>
    have hnext := h.nextToken.2
    cases hscan : scan cursor.remaining with
    | none => exact (tokens_of_scan_eq_none hscan).symm
    | some scanned =>
      obtain ⟨token, rest⟩ := scanned
      rw [hscan] at hnext
      have hmem : token ∈ tokens cursor.remaining := by simp [tokens_of_scan_eq_some hscan]
      exact absurd (hnext.1 ▸ heof) (spelled_of_mem_tokens token hmem).kind_ne_eof
  | case2 cursor next hgo following ih =>
    obtain ⟨hvalid, hnext⟩ := h.nextToken
    cases hscan : scan cursor.remaining with
    | none =>
      rw [hscan] at hnext
      exact absurd (by rw [hnext]; rfl) hgo
    | some scanned =>
      obtain ⟨token, rest⟩ := scanned
      rw [hscan] at hnext
      rw [tokens_of_scan_eq_some hscan, ← hnext.1, ← hnext.2, ← ih hvalid]

end Valid

/-- A cursor on the first character of a text reads the tokens of the text. -/
theorem tokenize_ofSource (source : String) :
    (ofSource source).tokenize.1 = Monkey.tokenize source := by
  rw [tokenize, (valid_ofSource source).readAll_eq, remaining_ofSource]
  rfl

end Cursor

end Monkey
