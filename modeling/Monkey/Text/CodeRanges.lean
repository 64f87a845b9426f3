/-!
# Sets of code points as sorted ranges

A property of characters that follows no arithmetic rule is a table: inclusive ranges of code
points in increasing order. Membership walks the table and stops at the first range that
starts above the code point, so the early characters of the alphabet cost almost nothing.
-/

namespace Monkey.Text

/-- Inclusive ranges of code points, in increasing order. -/
abbrev CodeRanges := List (Nat × Nat)

namespace CodeRanges

/-- Whether a code point lies in one of the ranges. -/
def contains : CodeRanges → Nat → Bool
  | [], _ => false
  | (first, last) :: rest, n => decide (first ≤ n) && (decide (n ≤ last) || contains rest n)

/-- A code point below the first range lies in none. -/
theorem contains_cons_of_lt {first last n : Nat} (rest : CodeRanges) (h : n < first) :
    contains ((first, last) :: rest) n = false := by
  simp [contains, Nat.not_le.mpr h]

end CodeRanges

end Monkey.Text
