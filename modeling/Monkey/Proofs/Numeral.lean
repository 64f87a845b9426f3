import Mathlib.Algebra.Group.Nat.Defs
import Monkey.Proofs.Lexeme
import Monkey.Text.Decimal

/-!
# Decimal numbers are read back

A text of ASCII digits is converted to its value exactly if it has at most `digitLimit` digits. The text
that a number in range is printed as is such a text, and its value is the number.
-/

namespace Monkey

namespace Text

/-- The value of a digit is its distance from zero. -/
theorem decimalValue?_of_isDigit {c : Char} (h : isDigit c = true) :
    decimalValue? c = some (c.toNat - 0x30) := by
  obtain ⟨hge, hle⟩ := toNat_of_isDigit h
  have hlt : c.toNat < 0x30 + 10 := by omega
  rw [decimalValue?, zeroDigits, List.find?_cons_of_pos (by simp [hge, hlt])]
  rfl

namespace Decimal

/-- The number that is written with the given ASCII digits. -/
def asciiValue (text : String) : Nat := value (text.toList.map fun c => c.toNat - 0x30)

/-- The values of digits are found one after the other. -/
theorem mapM_decimalValue? {digits : List Char} (h : ∀ c ∈ digits, isDigit c = true) :
    digits.mapM decimalValue? = some (digits.map fun c => c.toNat - 0x30) := by
  induction digits with
  | nil => rfl
  | cons c rest ih =>
    obtain ⟨hdigit, hrest⟩ := List.forall_mem_cons.mp h
    simp [decimalValue?_of_isDigit hdigit, ih hrest]

/-- A text of digits is converted exactly if there are not too many of them. -/
theorem read_of_isNumber {text : String} (h : IsNumber text.toList) :
    read text = if text.length ≤ digitLimit then .ok (asciiValue text)
      else .error (.tooLong text.length) := by
  have hlength : (text.toList.map fun c => c.toNat - 0x30).length = text.length := by
    rw [List.length_map, String.length_toList]
  rw [read, mapM_decimalValue? h.2]
  split
  · rename_i hnone
    cases hnone
  · rename_i hempty
    exact absurd (List.map_eq_nil_iff.mp (Option.some.inj hempty)) h.1
  · rename_i values _ hvalues
    obtain rfl := Option.some.inj hvalues
    rw [hlength]
    by_cases hlong : digitLimit < text.length
    · rw [if_pos hlong, if_neg (Nat.not_le.mpr hlong)]
    · rw [if_neg hlong, if_pos (Nat.not_lt.mp hlong)]
      rfl

/-- The digit of a number below ten stands for it. -/
theorem toNat_digit : ∀ n < 10, (digit n).toNat = 0x30 + n := by decide

/-- The digit of a number below ten is an ASCII digit. -/
theorem isDigit_digit {n : Nat} (h : n < 10) : isDigit (digit n) = true := by
  have hcode := toNat_digit n h
  simp only [isDigit, hcode, Bool.and_eq_true, decide_eq_true_eq]
  omega

/-- The text of a number consists of digits. -/
theorem isNumber_digits (n : Nat) : IsNumber (digits n) := by
  fun_induction digits n with
  | case1 n hlt => exact ⟨by simp, by simp [isDigit_digit hlt]⟩
  | case2 n _ ih =>
    refine ⟨by simp, fun c hc => ?_⟩
    rcases List.mem_append.mp hc with hfront | hlast
    · exact ih.2 c hfront
    · rw [List.mem_singleton.mp hlast]
      exact isDigit_digit (Nat.mod_lt n (by decide))

/-- The text of a number has the number as its value. -/
theorem asciiValue_ofNat (n : Nat) : asciiValue (ofNat n) = n := by
  rw [asciiValue, ofNat, String.toList_ofList]
  fun_induction digits n with
  | case1 n hlt =>
    have hcode := toNat_digit n hlt
    simp [value, hcode]
  | case2 n _ ih =>
    have hcode := toNat_digit (n % 10) (Nat.mod_lt n (by decide))
    rw [List.map_append, List.map_singleton, value_append_singleton, ih, hcode]
    omega

/-- A number below a power of ten is written with no more digits than the power has zeros. -/
theorem length_digits_le {n k : Nat} (h : n < 10 ^ (k + 1)) : (digits n).length ≤ k + 1 := by
  induction k generalizing n with
  | zero =>
    rw [digits, if_pos (by simpa using h)]
    simp
  | succ k ih =>
    rw [digits]
    split
    · simp
    · have hquotient : n / 10 < 10 ^ (k + 1) := Nat.div_lt_of_lt_mul (by rwa [← Nat.pow_succ'])
      have hle := ih hquotient
      rw [List.length_append, List.length_singleton]
      omega

/-- The text of a number in range is read as that number. -/
theorem read_ofNat {n : Nat} (h : n ≤ 2 ^ 63 - 1) : read (ofNat n) = .ok n := by
  have hnumber : IsNumber (ofNat n).toList := by
    rw [ofNat, String.toList_ofList]
    exact isNumber_digits n
  have hlength : (ofNat n).length ≤ digitLimit := by
    have hlt : n < 10 ^ (18 + 1) := by omega
    have hle := length_digits_le hlt
    rw [ofNat, String.length_ofList, digitLimit]
    omega
  rw [read_of_isNumber hnumber, if_pos hlength, asciiValue_ofNat]

end Decimal

end Text

end Monkey
