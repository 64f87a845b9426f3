import Mathlib.Data.List.TakeWhile
import Monkey.Token.Scan

/-!
# Lexemes

What the tokens of a text look like: words, numbers, and the fixed spellings of the keywords, the
operators and the delimiters. Conversely a text that starts with a lexeme starts with its token, and
where the lexeme is a word or a number its longest continuation in the text belongs to it.
-/

namespace Monkey

/-- The characters of a word. -/
def IsWord (text : List Char) : Prop :=
  ∃ c rest, text = c :: rest ∧ isWordStart c = true ∧ ∀ d ∈ rest, isWordChar d = true

instance : DecidablePred IsWord
  | [] => isFalse fun ⟨_, _, h, _⟩ => nomatch h
  | c :: rest =>
    decidable_of_iff (isWordStart c = true ∧ rest.all isWordChar = true)
      ⟨fun h => ⟨c, rest, rfl, h.1, List.all_eq_true.mp h.2⟩, fun ⟨_, _, heq, hstart, hrest⟩ => by
        cases heq
        exact ⟨hstart, List.all_eq_true.mpr hrest⟩⟩

/-- The characters of a number. -/
def IsNumber (text : List Char) : Prop := text ≠ [] ∧ ∀ c ∈ text, isDigit c = true

instance : DecidablePred IsNumber := fun text =>
  decidable_of_iff (text ≠ [] ∧ text.all isDigit = true) (and_congr_right' List.all_eq_true)

/-- The text of the tokens of a kind that has only one. -/
def TokenKind.spelling : TokenKind → String
  | .illegal | .eof | .ident | .int => ""
  | .assign => "="
  | .plus => "+"
  | .minus => "-"
  | .bang => "!"
  | .asterisk => "*"
  | .slash => "/"
  | .lt => "<"
  | .gt => ">"
  | .eq => "=="
  | .notEq => "!="
  | .comma => ","
  | .semicolon => ";"
  | .lparen => "("
  | .rparen => ")"
  | .lbrace => "\x7b"
  | .rbrace => "\x7d"
  | .kwFunction => "fn"
  | .kwLet => "let"
  | .kwTrue => "true"
  | .kwFalse => "false"
  | .kwIf => "if"
  | .kwElse => "else"
  | .kwReturn => "return"

/-- A token is spelled as its kind requires. -/
def Token.Spelled (t : Token) : Prop :=
  match t.kind with
  | .eof => False
  | .illegal => True
  | .ident => IsWord t.literal.toList ∧ keywords.lookup t.literal = none
  | .int => IsNumber t.literal.toList
  | kind => t.literal = kind.spelling

/-! ## Tokens that are scanned -/

/-- A keyword is spelled as its kind. -/
theorem spelling_of_lookup_keywords {word : String} {kind : TokenKind}
    (h : keywords.lookup word = some kind) : kind.spelling = word := by
  obtain ⟨front, back, hmem, -⟩ := List.lookup_eq_some_iff.mp h
  have hall : ∀ pair ∈ keywords, pair.2.spelling = pair.1 := by decide
  exact hall (word, kind) (by simp [hmem])

/-- A character that is a token by itself is spelled as its kind. -/
theorem spelling_of_lookup_punctuation {c : Char} {kind : TokenKind}
    (h : punctuation.lookup c = some kind) : kind.spelling = String.singleton c := by
  obtain ⟨front, back, hmem, -⟩ := List.lookup_eq_some_iff.mp h
  have hall : ∀ pair ∈ punctuation, pair.2.spelling = String.singleton pair.1 := by decide
  exact hall (c, kind) (by simp [hmem])

/-- A text that spells a kind is a token of that kind. -/
theorem spelled_of_spelling {kind : TokenKind} {text : String} (h : kind.spelling = text) (hne : text ≠ "") :
    Token.Spelled ⟨kind, text⟩ := by
  subst h
  cases kind <;> first | rfl | exact absurd rfl hne

theorem IsWord.ne_empty {word : String} (h : IsWord word.toList) : word ≠ "" := by
  rintro rfl
  obtain ⟨_, _, heq, -⟩ := h
  cases heq

/-- A word is spelled as a keyword or is an identifier. -/
theorem spelled_ofWord {word : String} (h : IsWord word.toList) :
    Token.Spelled ⟨.ofWord word, word⟩ := by
  cases hlookup : keywords.lookup word with
  | none => simpa [Token.Spelled, TokenKind.ofWord, hlookup] using h
  | some kind =>
    rw [TokenKind.ofWord, hlookup]
    exact spelled_of_spelling (spelling_of_lookup_keywords hlookup) h.ne_empty

/-- A character is spelled as its kind of punctuation or is illegal. -/
theorem spelled_ofPunctuation (c : Char) :
    Token.Spelled ⟨.ofPunctuation c, String.singleton c⟩ := by
  cases hlookup : punctuation.lookup c with
  | none => simp [Token.Spelled, TokenKind.ofPunctuation, hlookup]
  | some kind =>
    rw [TokenKind.ofPunctuation, hlookup]
    exact spelled_of_spelling (spelling_of_lookup_punctuation hlookup) String.singleton_ne_empty

/-- The token at the front of a text is spelled as its kind requires. -/
theorem spelled_scanLexeme (c : Char) (rest : List Char) : (scanLexeme c rest).1.Spelled := by
  unfold scanLexeme
  split
  · rename_i hstart
    refine spelled_ofWord ⟨c, rest.takeWhile isWordChar, String.toList_ofList, hstart, ?_⟩
    exact fun d hd => List.mem_takeWhile_imp hd
  · split
    · rename_i hdigit
      refine ⟨by simp, fun d hd => ?_⟩
      rw [String.toList_ofList, List.mem_cons] at hd
      rcases hd with rfl | hd
      · exact hdigit
      · exact List.mem_takeWhile_imp hd
    · repeat' split
      all_goals first | rfl | exact spelled_ofPunctuation c

/-- All tokens of a text are spelled as their kinds require. -/
theorem spelled_of_mem_tokens {text : List Char} : ∀ t ∈ tokens text, t.Spelled := by
  induction hlen : text.length using Nat.strongRecOn generalizing text with
  | ind len ih =>
    cases hscan : scan text with
    | none => simp [tokens_of_scan_eq_none hscan]
    | some scanned =>
      obtain ⟨token, rest⟩ := scanned
      rw [tokens_of_scan_eq_some hscan]
      refine List.forall_mem_cons.mpr ⟨?_, ih rest.length (hlen ▸ length_lt_of_scan hscan) rfl⟩
      unfold scan at hscan
      split at hscan
      · simp at hscan
      · rename_i c after _
        obtain rfl : (scanLexeme c after).1 = token := congrArg Prod.fst (Option.some.inj hscan)
        exact spelled_scanLexeme c after

namespace Token

variable {t : Token}

/-- A spelled token is not the end of input. -/
theorem Spelled.kind_ne_eof (h : t.Spelled) : t.kind ≠ .eof := by
  intro heof
  simp [Spelled, heof] at h

/-- An identifier is a word that is no keyword. -/
theorem Spelled.ident (h : t.Spelled) (hkind : t.kind = .ident) :
    IsWord t.literal.toList ∧ keywords.lookup t.literal = none := by
  unfold Spelled at h
  rwa [hkind] at h

/-- A number is written in digits. -/
theorem Spelled.int (h : t.Spelled) (hkind : t.kind = .int) : IsNumber t.literal.toList := by
  unfold Spelled at h
  rwa [hkind] at h

/-- A token of a kind with one spelling only has that spelling. -/
theorem Spelled.literal_eq {kind : TokenKind} (h : t.Spelled) (hkind : t.kind = kind)
    (hfixed : kind.spelling ≠ "") : t.literal = kind.spelling := by
  unfold Spelled at h
  rw [hkind] at h
  cases kind <;> first | exact h | exact absurd rfl hfixed

end Token

/-! ## Texts that start with a lexeme -/

theorem tokens_nil : tokens [] = [] := tokens_of_scan_eq_none rfl

/-- Blanks between tokens are dropped. -/
theorem tokens_cons_of_isBlank {c : Char} (h : isBlank c = true) (rest : List Char) :
    tokens (c :: rest) = tokens rest := by
  have hscan : scan (c :: rest) = scan rest := by
    unfold scan
    rw [List.dropWhile_cons_of_pos h]
  cases hrest : scan rest with
  | none => rw [tokens_of_scan_eq_none hrest, tokens_of_scan_eq_none (hscan.trans hrest)]
  | some scanned => rw [tokens_of_scan_eq_some hrest, tokens_of_scan_eq_some (hscan.trans hrest)]

/-- A text that does not start with a blank starts with the token at its front. -/
theorem tokens_cons {c : Char} (h : isBlank c = false) (rest : List Char) :
    tokens (c :: rest) = (scanLexeme c rest).1 :: tokens (scanLexeme c rest).2 := by
  refine tokens_of_scan_eq_some ?_
  unfold scan
  rw [List.dropWhile_cons_of_neg (by simp [h])]

/-- A character that goes on with a word is not blank. -/
theorem isBlank_of_isWordChar {c : Char} (h : isWordChar c = true) : isBlank c = false := by
  by_contra hblank
  simp only [isBlank, Bool.not_eq_false, Bool.or_eq_true, beq_iff_eq] at hblank
  rcases hblank with ((rfl | rfl) | rfl) | rfl <;> exact absurd h (by decide)

/-- The start of a word is not blank. -/
theorem isBlank_of_isWordStart {c : Char} (h : isWordStart c = true) : isBlank c = false :=
  isBlank_of_isWordChar (isWordChar_of_isWordStart h)

/-- A digit is an ASCII character. -/
theorem toNat_of_isDigit {c : Char} (h : isDigit c = true) : 0x30 ≤ c.toNat ∧ c.toNat ≤ 0x39 := by
  simpa [isDigit] using h

/-- A digit is not blank. -/
theorem isBlank_of_isDigit {c : Char} (h : isDigit c = true) : isBlank c = false := by
  by_contra hblank
  simp only [isBlank, Bool.not_eq_false, Bool.or_eq_true, beq_iff_eq] at hblank
  rcases hblank with ((rfl | rfl) | rfl) | rfl <;> exact absurd h (by decide)

/-- A digit does not start a word. -/
theorem isWordStart_of_isDigit {c : Char} (h : isDigit c = true) : isWordStart c = false := by
  obtain ⟨-, hle⟩ := toNat_of_isDigit h
  have hletter : Text.isLetter c = false := Text.CodeRanges.contains_cons_of_lt _ (by omega)
  have hunderscore : c ≠ '_' := by
    rintro rfl
    exact absurd hle (by decide)
  simp [isWordStart, hletter, hunderscore]

/-- A digit goes on with a word. -/
theorem isWordChar_of_isDigit {c : Char} (h : isDigit c = true) : isWordChar c = true := by
  obtain ⟨hge, hle⟩ := toNat_of_isDigit h
  have hnumeric : Text.numericRanges.contains c.toNat = true := by
    change (decide (0x30 ≤ c.toNat) && (decide (c.toNat ≤ 0x39) || _)) = true
    rw [decide_eq_true hge, decide_eq_true hle]
    rfl
  simp [isWordChar, Text.isAlphanumeric, hnumeric]

/-- A word takes the characters that follow it and go on with it. -/
theorem tokens_word_append {word : List Char} (h : IsWord word) (rest : List Char) :
    tokens (word ++ rest) =
      ⟨.ofWord (String.ofList (word ++ rest.takeWhile isWordChar)),
        String.ofList (word ++ rest.takeWhile isWordChar)⟩ ::
      tokens (rest.dropWhile isWordChar) := by
  obtain ⟨c, chars, rfl, hstart, hchars⟩ := h
  rw [List.cons_append, tokens_cons (isBlank_of_isWordStart hstart)]
  simp only [scanLexeme, hstart, if_true, List.takeWhile_append_of_pos hchars,
    List.dropWhile_append_of_pos hchars, List.cons_append]

/-- A number takes the digits that follow it. -/
theorem tokens_number_append {number : List Char} (h : IsNumber number) (rest : List Char) :
    tokens (number ++ rest) =
      ⟨.int, String.ofList (number ++ rest.takeWhile isDigit)⟩ ::
      tokens (rest.dropWhile isDigit) := by
  obtain ⟨hne, hdigits⟩ := h
  cases number with
  | nil => exact absurd rfl hne
  | cons c chars =>
    obtain ⟨hdigit, hchars⟩ := List.forall_mem_cons.mp hdigits
    rw [List.cons_append, tokens_cons (isBlank_of_isDigit hdigit)]
    simp only [scanLexeme, isWordStart_of_isDigit hdigit, hdigit, if_true, Bool.false_eq_true,
      if_false, List.takeWhile_append_of_pos hchars, List.dropWhile_append_of_pos hchars,
      List.cons_append]

end Monkey
