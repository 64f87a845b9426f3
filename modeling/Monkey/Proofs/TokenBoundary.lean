import Mathlib.Data.List.Basic
import Monkey.Proofs.LongestMatch

/-!
# Boundaries between tokens

Whether the tokens of two texts put together are those of the first text followed by those of the second
depends on the last token of the first text and on the first character of the second, and on nothing else.
A word takes the characters of a word, a number takes digits, and an equals sign makes one operator of an
equals sign or an exclamation mark before it. Any blank between the two texts keeps them apart.
-/

namespace Monkey

/-- The kinds of words: identifiers and keywords. -/
def TokenKind.wordKinds : List TokenKind := .ident :: keywords.map (·.2)

/-- A character right after a token becomes part of it. -/
def Token.Absorbs (t : Token) (c : Char) : Prop :=
  (t.kind ∈ TokenKind.wordKinds ∧ isWordChar c = true) ∨ (t.kind = .int ∧ isDigit c = true) ∨
    ((t.kind = .assign ∨ t.kind = .bang) ∧ c = '=')

/-- The first text does not end in a blank, and its last token absorbs the first character of the second
text. Neither text is empty then. -/
def Fuses (first second : String) : Prop :=
  (∀ d ∈ first.toList.getLast?, isBlank d = false) ∧
    ∃ t ∈ (tokens first.toList).getLast?, ∃ c ∈ second.toList.head?, t.Absorbs c

variable {c : Char} {lexeme text back blanks : List Char} {stream : List Token} {t : Token}

/-! ## Characters that a token absorbs -/

/-- No character of a lexeme is blank. -/
theorem IsLexeme.isBlank_eq_false (h : IsLexeme lexeme) : ∀ d ∈ lexeme, isBlank d = false := by
  rcases h with ⟨c, rest, rfl, hstart, hrest⟩ | ⟨-, hdigits⟩ | rfl | rfl | ⟨c, rfl, hblank⟩
  · exact List.forall_mem_cons.mpr
      ⟨isBlank_of_isWordStart hstart, fun d hd => isBlank_of_isWordChar (hrest d hd)⟩
  · exact fun d hd => isBlank_of_isDigit (hdigits d hd)
  · simp [isBlank]
  · simp [isBlank]
  · simpa using hblank

/-- A word is an identifier or a keyword. -/
theorem ofWord_mem_wordKinds (word : String) : TokenKind.ofWord word ∈ TokenKind.wordKinds := by
  cases hlookup : keywords.lookup word with
  | none => simp [TokenKind.ofWord, hlookup, TokenKind.wordKinds]
  | some kind =>
    obtain ⟨front, back, hmem, -⟩ := List.lookup_eq_some_iff.mp hlookup
    have hpair : (word, kind) ∈ keywords := by rw [hmem]; simp
    rw [TokenKind.ofWord, hlookup]
    exact List.mem_cons_of_mem _ (List.mem_map_of_mem hpair)

/-- A word absorbs the characters of a word. -/
theorem absorbs_word_iff (h : t.kind ∈ TokenKind.wordKinds) :
    t.Absorbs c ↔ isWordChar c = true := by
  have hother : ∀ kind ∈ TokenKind.wordKinds, kind ≠ .int ∧ kind ≠ .assign ∧ kind ≠ .bang := by decide
  obtain ⟨hint, hassign, hbang⟩ := hother t.kind h
  simp [Token.Absorbs, h, hint, hassign, hbang]

/-- A number absorbs digits. -/
theorem absorbs_number_iff (h : t.kind = .int) : t.Absorbs c ↔ isDigit c = true := by
  have hword : TokenKind.int ∉ TokenKind.wordKinds := by decide
  simp [Token.Absorbs, h, hword]

/-- An operator of one character absorbs an equals sign where this makes another operator. -/
theorem absorbs_sign_iff (h : t.kind = .assign ∨ t.kind = .bang) : t.Absorbs c ↔ c = '=' := by
  have hword : TokenKind.assign ∉ TokenKind.wordKinds ∧ TokenKind.bang ∉ TokenKind.wordKinds := by
    decide
  rcases h with h | h <;> simp [Token.Absorbs, h, hword]

/-- The other kinds, which absorb nothing. -/
theorem not_absorbs (h : t.kind ∉ .int :: .assign :: .bang :: TokenKind.wordKinds) : ¬ t.Absorbs c := by
  simp only [List.mem_cons, not_or] at h
  simp [Token.Absorbs, h]

/-- The delimiters and the other operators of one character absorb nothing. -/
theorem not_absorbs_ofPunctuation (literal : String) :
    ¬ Token.Absorbs ⟨.ofPunctuation d, literal⟩ c := by
  refine not_absorbs ?_
  cases hlookup : punctuation.lookup d with
  | none =>
    rw [TokenKind.ofPunctuation, hlookup]
    exact (by decide : TokenKind.illegal ∉ .int :: .assign :: .bang :: TokenKind.wordKinds)
  | some kind =>
    obtain ⟨front, back, hmem, -⟩ := List.lookup_eq_some_iff.mp hlookup
    have hpair : (d, kind) ∈ punctuation := by rw [hmem]; simp
    have hother : ∀ kind ∈ punctuation.map (·.2),
        kind ∉ .int :: .assign :: .bang :: TokenKind.wordKinds := by decide
    rw [TokenKind.ofPunctuation, hlookup]
    exact hother kind (List.mem_map_of_mem hpair)

/-- A token absorbs exactly the characters that make a longer lexeme of its text. -/
theorem absorbs_ofLexeme_iff (h : IsLexeme lexeme) :
    (Token.ofLexeme lexeme).Absorbs c ↔ IsLexeme (lexeme ++ [c]) := by
  obtain ⟨d, more, rfl, hblank⟩ := h.exists_cons
  rw [List.cons_append]
  by_cases hword : isWordStart d = true
  · have hmore := (isLexeme_of_isWordStart hword).mp h
    rw [ofLexeme_word ⟨d, more, rfl, hword, hmore⟩, isLexeme_of_isWordStart hword,
      absorbs_word_iff (ofWord_mem_wordKinds _), List.forall_mem_append, List.forall_mem_singleton]
    exact (and_iff_right hmore).symm
  · by_cases hdigit : isDigit d = true
    · have hmore := (isLexeme_of_isDigit hdigit).mp h
      rw [ofLexeme_number ⟨by simp, List.forall_mem_cons.mpr ⟨hdigit, hmore⟩⟩,
        isLexeme_of_isDigit hdigit, absorbs_number_iff rfl, List.forall_mem_append,
        List.forall_mem_singleton]
      exact (and_iff_right hmore).symm
    · simp only [Bool.not_eq_true] at hword hdigit
      rw [isLexeme_of_not hword hdigit] at h ⊢
      rcases h with ⟨rfl, -⟩ | ⟨hsign, rfl⟩
      · by_cases hsign : d = '=' ∨ d = '!'
        · have hkind : (Token.ofLexeme [d]).kind = .assign ∨ (Token.ofLexeme [d]).kind = .bang := by
            rcases hsign with rfl | rfl
            · exact .inl rfl
            · exact .inr rfl
          rw [absorbs_sign_iff hkind]
          simp [hsign]
        · rw [not_or] at hsign
          rw [ofLexeme_singleton hword hdigit hsign.1 hsign.2]
          simp [not_absorbs_ofPunctuation, hsign]
      · have hnone : ¬ (Token.ofLexeme [d, '=']).Absorbs c := by
          refine not_absorbs ?_
          rcases hsign with rfl | rfl <;> decide
        simp [hnone]

/-! ## Texts one after the other -/

/-- The tokens of a text have their lexemes as texts. -/
theorem exists_ofLexeme_of_mem_tokens (h : t ∈ tokens text) :
    ∃ lexeme, IsLexeme lexeme ∧ t = .ofLexeme lexeme := by
  have hlexed : Lexed text (tokens text) := lexed_iff.mpr rfl
  generalize tokens text = stream at h hlexed
  induction hlexed with
  | blanks => cases h
  | lexeme _ hlongest _ ih =>
    rcases List.mem_cons.mp h with rfl | h
    · exact ⟨_, hlongest.isLexeme, rfl⟩
    · exact ih h

/-- A token of a text absorbs exactly the characters that make a longer lexeme of its text. -/
theorem absorbs_iff_of_mem_tokens (h : t ∈ tokens text) :
    t.Absorbs c ↔ IsLexeme (t.literal.toList ++ [c]) := by
  obtain ⟨lexeme, hlexeme, rfl⟩ := exists_ofLexeme_of_mem_tokens h
  rw [absorbs_ofLexeme_iff hlexeme, Token.ofLexeme, String.toList_ofList]

/-- Where the last token does not absorb the first character of the second text, the two texts are taken
apart independently. -/
theorem tokens_append_of_not_absorbs
    (h : ∀ t ∈ (tokens text).getLast?, ∀ c ∈ back.head?, ¬ t.Absorbs c) :
    tokens (text ++ back) = tokens text ++ tokens back := by
  refine lexed_iff.mp ((lexed_iff.mpr rfl).append (lexed_iff.mpr rfl) fun t ht c hc hlexeme => ?_)
  exact h t ht c hc ((absorbs_iff_of_mem_tokens (List.mem_of_mem_getLast? ht)).mpr hlexeme)

/-- No token absorbs a blank. -/
theorem not_absorbs_of_isBlank (ht : t ∈ tokens text) (hc : isBlank c = true) : ¬ t.Absorbs c := by
  intro habsorbs
  have hlexeme := (absorbs_iff_of_mem_tokens ht).mp habsorbs
  have hblank := hlexeme.isBlank_eq_false c (by simp)
  simp [hc] at hblank

/-- A blank keeps the texts around it apart. -/
theorem tokens_append_blank_append (hc : isBlank c = true) :
    tokens (text ++ c :: back) = tokens text ++ tokens back := by
  rw [tokens_append_of_not_absorbs, tokens_cons_of_isBlank hc]
  intro t ht d hd
  obtain rfl : c = d := by simpa using hd
  exact not_absorbs_of_isBlank (List.mem_of_mem_getLast? ht) hc

/-- A text that ends in a blank is kept apart from what follows. -/
theorem tokens_append_of_blank_last (h : c ∈ text.getLast?) (hc : isBlank c = true) :
    tokens (text ++ back) = tokens text ++ tokens back := by
  obtain ⟨front, rfl⟩ := List.getLast?_eq_some_iff.mp (Option.mem_def.mp h)
  rw [List.append_assoc, List.singleton_append, tokens_append_blank_append hc,
    tokens_append_blank_append hc, tokens_nil, List.append_nil]

/-- A text without tokens is blank. -/
theorem Lexed.isBlank_of_nil (h : Lexed text []) : ∀ d ∈ text, isBlank d = true := by
  cases h with
  | blanks hblanks => exact hblanks

/-- A text that starts with a lexeme starts with a longest one, which is at least as long. -/
theorem exists_tokens_of_isLexeme (h : IsLexeme lexeme) (rest : List Char) :
    ∃ longest after, lexeme.length ≤ longest.length ∧
      tokens (lexeme ++ rest) = .ofLexeme longest :: tokens after := by
  obtain ⟨c, more, rfl, hblank⟩ := h.exists_cons
  obtain ⟨longest, hscans⟩ := exists_scansLongest hblank (more ++ rest)
  have hlongest := (isLongestLexeme_append_iff hscans.isLexeme).mpr hscans.stop
  rw [List.cons_append, hscans.eq]
  refine ⟨longest, _, hlongest.longest _ h ?_, tokens_of_isLongestLexeme hlongest⟩
  rw [← hscans.eq, ← List.cons_append]
  exact List.prefix_append _ _

/-- Where the last token does absorb the first character of the second text, it is not among the tokens
of the two texts together. -/
theorem tokens_append_ne_of_absorbs (hlexed : Lexed text stream)
    (hlast : ∀ d ∈ text.getLast?, isBlank d = false) (ht : t ∈ stream.getLast?)
    (hc : t.Absorbs c) (after : List Token) : tokens (text ++ c :: back) ≠ stream ++ after := by
  induction hlexed with
  | blanks => cases ht
  | @lexeme blanks lexeme rest more hblanks hlongest hrest ih =>
    rw [List.append_assoc, List.append_assoc, tokens_blanks_append hblanks, List.cons_append]
    intro heq
    cases rest with
    | nil =>
      -- This is the last lexeme of the first text, and a longer one starts in its place.
      obtain rfl : more = [] := (lexed_iff.mp hrest).symm.trans tokens_nil
      obtain rfl : Token.ofLexeme lexeme = t := by simpa using ht
      have hlonger := (absorbs_ofLexeme_iff hlongest.isLexeme).mp hc
      obtain ⟨longest, left, hle, htokens⟩ := exists_tokens_of_isLexeme hlonger back
      rw [List.append_assoc, List.singleton_append] at htokens
      rw [List.nil_append, htokens] at heq
      have hliteral := congrArg Token.literal (List.cons.inj heq).1
      obtain rfl : longest = lexeme := String.ofList_injective hliteral
      rw [List.length_append, List.length_singleton] at hle
      omega
    | cons d rest =>
      -- The token before stays as it is, and the rest of the first text is left.
      have hstop := (isLongestLexeme_append_iff hlongest.isLexeme).mp hlongest
      have hlonger : IsLongestLexeme lexeme (lexeme ++ (d :: rest ++ c :: back)) :=
        (isLongestLexeme_append_iff hlongest.isLexeme).mpr hstop
      rw [tokens_of_isLongestLexeme hlonger] at heq
      have hend : (blanks ++ (lexeme ++ d :: rest)).getLast? = (d :: rest).getLast? := by
        rw [← List.append_assoc, List.getLast?_append_of_ne_nil _ (List.cons_ne_nil d rest)]
      rw [hend] at hlast
      cases more with
      | nil =>
        have hblank := hrest.isBlank_of_nil _ (List.getLast_mem (List.cons_ne_nil d rest))
        rw [hlast _ (List.getLast?_eq_some_getLast _)] at hblank
        cases hblank
      | cons u more => exact ih hlast (by simpa using ht) (List.cons.inj heq).2

/-- The end of input comes once, after all the tokens. -/
theorem tokenize_append_eq_iff {whole first second : String} :
    tokenize whole = (tokenize first).dropLast ++ tokenize second ↔
      tokens whole.toList = tokens first.toList ++ tokens second.toList := by
  simp only [tokenize, List.dropLast_concat, ← List.append_assoc, List.append_left_inj]

/-- The tokens of two texts together are those of the one followed by those of the other exactly if the
texts do not fuse. With a blank between them, whatever they are, the texts are kept apart. A cursor reads
the same tokens. -/
theorem tokenize_append_iff_not_fuses (first second : String) :
    (tokenize (first ++ second) = (tokenize first).dropLast ++ tokenize second ↔
      ¬ Fuses first second) ∧
    ((Cursor.ofSource (first ++ second)).tokenize.1 =
        (Cursor.ofSource first).tokenize.1.dropLast ++ (Cursor.ofSource second).tokenize.1 ↔
      ¬ Fuses first second) ∧
    ∀ between : String, between ≠ "" → (∀ c ∈ between.toList, isBlank c = true) →
      tokenize (first ++ between ++ second) = (tokenize first).dropLast ++ tokenize second := by
  have hiff : tokenize (first ++ second) = (tokenize first).dropLast ++ tokenize second ↔
      ¬ Fuses first second := by
    rw [tokenize_append_eq_iff, String.toList_append]
    constructor
    · rintro heq ⟨hlast, t, ht, c, hc, habsorbs⟩
      obtain ⟨rest, hrest⟩ := List.head?_eq_some_iff.mp (Option.mem_def.mp hc)
      rw [hrest] at heq
      exact tokens_append_ne_of_absorbs (lexed_iff.mpr rfl) hlast ht habsorbs _ heq
    · intro hfuses
      by_cases hend : ∃ d ∈ first.toList.getLast?, isBlank d = true
      · obtain ⟨d, hd, hblank⟩ := hend
        exact tokens_append_of_blank_last hd hblank
      · have hlast : ∀ d ∈ first.toList.getLast?, isBlank d = false := fun d hd =>
          Bool.eq_false_iff.mpr fun hblank => hend ⟨d, hd, hblank⟩
        refine tokens_append_of_not_absorbs fun t ht c hc habsorbs => ?_
        exact hfuses ⟨hlast, t, ht, c, hc, habsorbs⟩
  refine ⟨hiff, by simpa only [Cursor.tokenize_ofSource] using hiff, fun between hne hblank => ?_⟩
  rw [tokenize_append_eq_iff, String.toList_append, String.toList_append, List.append_assoc]
  cases hbetween : between.toList with
  | nil => exact absurd (String.toList_eq_nil_iff.mp hbetween) hne
  | cons c rest =>
    rw [hbetween] at hblank
    obtain ⟨hc, hrest⟩ := List.forall_mem_cons.mp hblank
    rw [List.cons_append, tokens_append_blank_append hc, tokens_blanks_append hrest]

/-- Two equals signs make one token, and two with a blank between them. -/
theorem equals_signs_kept_apart :
    Fuses "a=" "=b" ∧ tokenize ("a=" ++ " " ++ "=b") = (tokenize "a=").dropLast ++ tokenize "=b" := by
  have hassign : (⟨.assign, "="⟩ : Token) ∈ (tokens "a=".toList).getLast? := by decide +kernel
  have hfuses : Fuses "a=" "=b" :=
    ⟨by simp [isBlank], _, hassign, '=', by simp, .inr (.inr ⟨.inl rfl, rfl⟩)⟩
  exact ⟨hfuses, (tokenize_append_iff_not_fuses "a=" "=b").2.2 " " (by simp) (by simp [isBlank])⟩

end Monkey
