import Mathlib.Algebra.Group.Nat.Defs
import Mathlib.Tactic.SplitIfs
import Monkey.Text.Quoted

/-!
# Quoted text is read back

A character of a quoted text is read off the front of what it is written as, whatever follows: a backslash
says by the letter after it which character is meant, or how many hexadecimal digits give its code point.
The closing mark is not how a character is written. So a quoted text ends where its closing mark says and
is read back with what follows it, and two texts are the same if their quoted forms are.
-/

namespace Monkey.Text

/-! ## Hexadecimal digits -/

/-- The number that a hexadecimal digit stands for. -/
def hexDigitValue (c : Char) : Nat := if c.toNat < 0x61 then c.toNat - 0x30 else c.toNat - 0x61 + 10

/-- The number that is written with the given hexadecimal digits. -/
def hexValue (digits : List Char) : Nat := digits.foldl (fun n c => 16 * n + hexDigitValue c) 0

theorem hexDigitValue_hexDigit : ∀ n < 16, hexDigitValue (hexDigit n) = n := by decide

/-- The last hexadecimal digits of a number have the value that is left when the others are dropped. -/
theorem hexValue_hexDigits (width n : Nat) : hexValue (hexDigits width n) = n % 16 ^ width := by
  induction width generalizing n with
  | zero => exact (Nat.mod_one n).symm
  | succ width ih =>
    have hlast := hexDigitValue_hexDigit (n % 16) (Nat.mod_lt n (by decide))
    have hfront : (hexDigits width (n / 16)).foldl (fun n c => 16 * n + hexDigitValue c) 0 =
      n / 16 % 16 ^ width := ih (n / 16)
    rw [hexValue, hexDigits, List.foldl_append, hfront, List.foldl_cons, List.foldl_nil, hlast,
      Nat.pow_succ, Nat.mul_comm (16 ^ width) 16, Nat.mod_mul]
    omega

namespace Quoted

/-! ## Escapes -/

/-- How many hexadecimal digits follow a letter after a backslash. -/
def codeWidth (letter : Char) : Option Nat :=
  if letter = 'x' then some 2 else if letter = 'u' then some 4 else if letter = 'U' then some 8 else none

/-- What a letter after a backslash means when no digits follow it. -/
def unescape (letter : Char) : Char :=
  if letter = 't' then '\t' else if letter = 'n' then '\n' else if letter = 'r' then '\r' else letter

/-- The character at the front of the inside of a quoted text, and what follows it. -/
def readChar : List Char → Option (Char × List Char)
  | [] => none
  | c :: rest =>
    if c = backslash then
      match rest with
      | [] => none
      | letter :: after =>
        match codeWidth letter with
        | some width => some (Char.ofNat (hexValue (after.take width)), after.drop width)
        | none => some (unescape letter, after)
    else some (c, rest)

theorem readChar_of_codeWidth {letter : Char} {width : Nat} (h : codeWidth letter = some width)
    (after : List Char) :
    readChar (backslash :: letter :: after) =
      some (Char.ofNat (hexValue (after.take width)), after.drop width) := by
  simp [readChar, h]

/-- A code point of at most as many hexadecimal digits as a letter says is read back. -/
theorem readChar_hexDigits {letter : Char} {width : Nat} {c : Char}
    (hwidth : codeWidth letter = some width) (hc : c.toNat < 16 ^ width) (rest : List Char) :
    readChar (backslash :: letter :: (hexDigits width c.toNat ++ rest)) = some (c, rest) := by
  have hlength := length_hexDigits width c.toNat
  rw [readChar_of_codeWidth hwidth, List.take_left' hlength, List.drop_left' hlength,
    hexValue_hexDigits, Nat.mod_eq_of_lt hc, Char.ofNat_toNat]

/-- A character is read off the front of its escape code. -/
theorem readChar_escapeCode (c : Char) (rest : List Char) :
    readChar (escapeCode c.toNat ++ rest) = some (c, rest) := by
  have hvalid : c.toNat < 0x110000 := by
    rcases c.valid with h | h
    · exact Nat.lt_trans h (by decide)
    · exact h.2
  have htwo : codeWidth 'x' = some 2 := rfl
  have hfour : codeWidth 'u' = some 4 := rfl
  have height : codeWidth 'U' = some 8 := rfl
  unfold escapeCode
  split_ifs with hbyte hword
  · exact readChar_hexDigits htwo hbyte rest
  · exact readChar_hexDigits hfour hword rest
  · exact readChar_hexDigits height (by omega) rest

/-- A mark around a text is an apostrophe or a double quote. -/
theorem mark_cases (text : List Char) : mark text = apostrophe ∨ mark text = doubleQuote := by
  unfold mark
  split
  · exact .inr rfl
  · exact .inl rfl

variable {m : Char}

/-- A character is read off the front of what it is written as. -/
theorem readChar_escape (hm : m = apostrophe ∨ m = doubleQuote) (c : Char) (rest : List Char) :
    readChar (escape m c ++ rest) = some (c, rest) := by
  unfold escape
  split
  · rename_i hplain
    have hc : c = apostrophe ∨ c = doubleQuote ∨ c = backslash := by
      rcases hplain with rfl | hc
      · exact hm.imp_right .inl
      · exact .inr (.inr hc)
    rcases hc with rfl | rfl | rfl <;> rfl
  · rename_i hneither
    split_ifs with htab hfeed hreturn hprintable
    · rw [htab]
      rfl
    · rw [hfeed]
      rfl
    · rw [hreturn]
      rfl
    · exact if_neg fun h => hneither (.inr h)
    · exact readChar_escapeCode c rest

/-- No character is written as the closing mark. -/
theorem escape_append_ne_mark (hm : m = apostrophe ∨ m = doubleQuote) (c : Char)
    (front back : List Char) : escape m c ++ front ≠ m :: back := by
  intro heq
  have hmark : m ≠ backslash := by rcases hm with rfl | rfl <;> decide
  have hback : readChar (m :: back) = some (m, back) := if_neg hmark
  obtain ⟨rfl, -⟩ : c = m ∧ front = back := by
    simpa [← heq, readChar_escape hm] using hback
  rw [escape, if_pos (.inl rfl)] at heq
  exact hmark (List.cons.inj heq).1.symm

/-! ## Texts -/

/-- Reading a character takes something off the text. -/
theorem length_lt_of_readChar {text after : List Char} {c : Char} (h : readChar text = some (c, after)) :
    after.length < text.length := by
  cases text with
  | nil => simp [readChar] at h
  | cons d rest =>
    by_cases hd : d = backslash
    · cases rest with
      | nil => simp [readChar, hd] at h
      | cons letter rest =>
        cases hwidth : codeWidth letter with
        | none =>
          obtain ⟨-, rfl⟩ : unescape letter = c ∧ rest = after := by simpa [readChar, hd, hwidth] using h
          simp only [List.length_cons]
          omega
        | some width =>
          obtain ⟨-, rfl⟩ : Char.ofNat (hexValue (rest.take width)) = c ∧ rest.drop width = after := by
            simpa [readChar, hd, hwidth] using h
          simp only [List.length_drop, List.length_cons]
          omega
    · obtain ⟨-, rfl⟩ : d = c ∧ rest = after := by simpa [readChar, hd] using h
      simp

/-- The inside of a quoted text up to its closing mark, and what follows the mark. -/
def readInside (mark : Char) (text : List Char) : Option (List Char × List Char) :=
  if text.head? = some mark then some ([], text.tail)
  else
    match _h : readChar text with
    | none => none
    | some (c, after) => (readInside mark after).map fun found => (c :: found.1, found.2)
termination_by text.length
decreasing_by exact length_lt_of_readChar _h

theorem readInside_mark (mark : Char) (rest : List Char) :
    readInside mark (mark :: rest) = some ([], rest) := by
  rw [readInside, if_pos List.head?_cons, List.tail_cons]

theorem readInside_of_readChar {mark c : Char} {text after : List Char} (hmark : text.head? ≠ some mark)
    (h : readChar text = some (c, after)) :
    readInside mark text = (readInside mark after).map fun found => (c :: found.1, found.2) := by
  rw [readInside, if_neg hmark]
  split <;> simp_all

/-- The inside of a quoted text ends where the closing mark says. -/
theorem readInside_flatMap_escape (hm : m = apostrophe ∨ m = doubleQuote) (text rest : List Char) :
    readInside m (text.flatMap (escape m) ++ m :: rest) = some (text, rest) := by
  induction text with
  | nil => exact readInside_mark m rest
  | cons c text ih =>
    rw [List.flatMap_cons, List.append_assoc, readInside_of_readChar _ (readChar_escape hm c _), ih]
    · rfl
    · intro hhead
      obtain ⟨back, hback⟩ := List.head?_eq_some_iff.mp hhead
      exact escape_append_ne_mark hm c _ back hback

/-- The text that is quoted at the front of a text, and what follows it. -/
def read : List Char → Option (List Char × List Char)
  | [] => none
  | mark :: rest => readInside mark rest

/-- A quoted text is read off the front of a text. -/
theorem read_encode_append (text rest : List Char) : read (encode text ++ rest) = some (text, rest) := by
  simpa [encode, read] using readInside_flatMap_escape (mark_cases text) text rest

/-- A quoted text tells the text, and where it ends. -/
theorem encode_append_inj {text other rest rest' : List Char}
    (h : encode text ++ rest = encode other ++ rest') : text = other ∧ rest = rest' := by
  have hread := congrArg read h
  simpa [read_encode_append] using hread

end Quoted

/-- Texts are the same if their quoted forms, with something after them, start the same text. -/
theorem quoted_append_inj {text other : String} {rest rest' : List Char}
    (h : (quoted text).toList ++ rest = (quoted other).toList ++ rest') : text = other ∧ rest = rest' := by
  rw [quoted, quoted, String.toList_ofList, String.toList_ofList] at h
  obtain ⟨htext, hrest⟩ := Quoted.encode_append_inj h
  exact ⟨String.toList_inj.mp htext, hrest⟩

/-- Texts are the same if their quoted forms are. -/
theorem quoted_injective : Function.Injective quoted := by
  intro text other h
  have hchars : (quoted text).toList ++ [] = (quoted other).toList ++ [] := by rw [h]
  exact (quoted_append_inj hchars).1

end Monkey.Text
