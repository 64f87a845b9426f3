import Monkey.Token
import Monkey.Text.Numeral

/-!
# Scanning a text into tokens

A token is read off the front of the text that remains: blanks are skipped, then the longest
word, run of digits or operator is taken, and a character that begins none of these is a token
of its own. Scanning never fails; the characters that the language does not know become
illegal tokens.
-/

namespace Monkey

/-- Space, tab, line feed and carriage return separate tokens. -/
def isBlank (c : Char) : Bool := c == ' ' || c == '\t' || c == '\n' || c == '\r'

/-- A word starts with a letter or an underscore. -/
def isWordStart (c : Char) : Bool := Text.isLetter c || c == '_'

/-- A word goes on with letters, numeric characters and underscores. -/
def isWordChar (c : Char) : Bool := Text.isAlphanumeric c || c == '_'

/-- A number is written in the ten ASCII digits. -/
def isDigit (c : Char) : Bool := decide (0x30 ≤ c.toNat) && decide (c.toNat ≤ 0x39)

/-- The start of a word belongs to it. -/
theorem isWordChar_of_isWordStart {c : Char} (h : isWordStart c = true) : isWordChar c = true := by
  simp only [isWordStart, isWordChar, Bool.or_eq_true] at h ⊢
  exact h.imp_left Text.isAlphanumeric_of_isLetter

/-- The token at the front of a text that starts with the given character, and what follows it. -/
def scanLexeme (c : Char) (rest : List Char) : Token × List Char :=
  if isWordStart c then
    let word := String.ofList (c :: rest.takeWhile isWordChar)
    (⟨.ofWord word, word⟩, rest.dropWhile isWordChar)
  else if isDigit c then
    (⟨.int, String.ofList (c :: rest.takeWhile isDigit)⟩, rest.dropWhile isDigit)
  else if c = '=' ∧ rest.head? = some '=' then (⟨.eq, "=="⟩, rest.tail)
  else if c = '=' then (⟨.assign, "="⟩, rest)
  else if c = '!' ∧ rest.head? = some '=' then (⟨.notEq, "!="⟩, rest.tail)
  else if c = '!' then (⟨.bang, "!"⟩, rest)
  else (⟨.ofPunctuation c, String.singleton c⟩, rest)

/-- Dropping a run leaves no more than there was. -/
theorem length_dropWhile_le (p : Char → Bool) (text : List Char) :
    (text.dropWhile p).length ≤ text.length :=
  (List.dropWhile_suffix p).length_le

/-- What follows a token is no longer than what follows its first character. -/
theorem length_scanLexeme_snd (c : Char) (rest : List Char) :
    (scanLexeme c rest).2.length ≤ rest.length := by
  have hword := length_dropWhile_le isWordChar rest
  have hdigit := length_dropWhile_le isDigit rest
  have htail : rest.tail.length ≤ rest.length := by simp
  unfold scanLexeme
  repeat' split
  all_goals first | exact hword | exact hdigit | exact htail | exact Nat.le_refl _

/-- The first token of a text and what follows it, or nothing when only blanks remain. -/
def scan (text : List Char) : Option (Token × List Char) :=
  match text.dropWhile isBlank with
  | [] => none
  | c :: rest => some (scanLexeme c rest)

/-- Each token takes at least one character. -/
theorem length_lt_of_scan {text rest : List Char} {token : Token}
    (h : scan text = some (token, rest)) : rest.length < text.length := by
  have hle := length_dropWhile_le isBlank text
  unfold scan at h
  split at h
  · simp at h
  · rename_i c after hdrop
    have hlex := length_scanLexeme_snd c after
    rw [Option.some.injEq] at h
    simp only [h] at hlex
    rw [hdrop, List.length_cons] at hle
    omega

/-- Scan a text whose tokens so far, the last one first, are given. -/
def tokensAfter (seen : List Token) (text : List Char) : List Token :=
  match _h : scan text with
  | none => seen.reverse
  | some (token, rest) => tokensAfter (token :: seen) rest
termination_by text.length
decreasing_by exact length_lt_of_scan _h

/-- The tokens of a text, without the end of input. -/
def tokens (text : List Char) : List Token := tokensAfter [] text

theorem tokensAfter_of_scan_eq_none {seen : List Token} {text : List Char}
    (h : scan text = none) : tokensAfter seen text = seen.reverse := by
  rw [tokensAfter]
  split <;> simp_all

theorem tokensAfter_of_scan_eq_some {seen : List Token} {text rest : List Char} {token : Token}
    (h : scan text = some (token, rest)) :
    tokensAfter seen text = tokensAfter (token :: seen) rest := by
  rw [tokensAfter]
  split <;> simp_all

/-- The tokens seen so far come first. -/
theorem tokensAfter_eq (seen : List Token) (text : List Char) :
    tokensAfter seen text = seen.reverse ++ tokens text := by
  match h : scan text with
  | none => simp [tokens, tokensAfter_of_scan_eq_none h]
  | some (token, rest) =>
    rw [tokens, tokensAfter_of_scan_eq_some h, tokensAfter_of_scan_eq_some h,
      tokensAfter_eq (token :: seen) rest, tokensAfter_eq [token] rest]
    simp
termination_by text.length
decreasing_by all_goals exact length_lt_of_scan h

/-- Where only blanks remain there is no token. -/
theorem tokens_of_scan_eq_none {text : List Char} (h : scan text = none) : tokens text = [] :=
  tokensAfter_of_scan_eq_none h

/-- The tokens of a text are the first one and those of what follows it. -/
theorem tokens_of_scan_eq_some {text rest : List Char} {token : Token}
    (h : scan text = some (token, rest)) : tokens text = token :: tokens rest := by
  rw [tokens, tokensAfter_of_scan_eq_some h, tokensAfter_eq]
  rfl

/-- A text has no more tokens than characters. -/
theorem length_tokens_le (text : List Char) : (tokens text).length ≤ text.length := by
  match h : scan text with
  | none =>
    rw [tokens_of_scan_eq_none h]
    exact Nat.zero_le _
  | some (token, rest) =>
    have hrest := length_lt_of_scan h
    have ih := length_tokens_le rest
    rw [tokens_of_scan_eq_some h, List.length_cons]
    omega
termination_by text.length

/-- The tokens of a text with the end of input after them. -/
def tokenize (source : String) : List Token := tokens source.toList ++ [.endOfInput]

end Monkey
