import Monkey.Text.Numeral
import Monkey.Text.Quoted

/-!
# Decimal numbers

A number is written in decimal with no leading zeros and a minus sign when it is negative. It
is read from decimal digits of any script, leading zeros allowed; a text of more than
`digitLimit` digits is refused, whatever its value, and so is a text that holds anything else.
-/

namespace Monkey.Text

/-- Why a text was not read as a number. -/
inductive NumeralError where
  /-- The text is empty or holds something other than decimal digits. -/
  | notDecimal (text : String)
  /-- The text has more digits than are converted. -/
  | tooLong (digits : Nat)
deriving DecidableEq, Repr

namespace Decimal

/-- The most digits that are read as one number. -/
def digitLimit : Nat := 4300

/-- The decimal digit of a number below ten. -/
def digit (n : Nat) : Char := Char.ofNat (0x30 + n)

/-- The decimal digits of a natural number, most significant first. -/
def digits (n : Nat) : List Char :=
  if n < 10 then [digit n] else digits (n / 10) ++ [digit (n % 10)]

/-- The number with the given decimal digits, most significant first. -/
def value (ds : List Nat) : Nat := ds.foldl (fun n d => 10 * n + d) 0

/-- A last digit multiplies the value of those before it by ten. -/
theorem value_append_singleton (ds : List Nat) (d : Nat) :
    value (ds ++ [d]) = 10 * value ds + d := by
  simp [value, List.foldl_append]

/-- The text of a natural number. -/
def ofNat (n : Nat) : String := String.ofList (digits n)

/-- The text of an integer. -/
def ofInt : Int → String
  | .ofNat n => ofNat n
  | .negSucc n => "-" ++ ofNat (n + 1)

/-- The number that a text of decimal digits denotes. -/
def read (text : String) : Except NumeralError Nat :=
  match text.toList.mapM decimalValue? with
  | none => .error (.notDecimal text)
  | some [] => .error (.notDecimal text)
  | some ds => if digitLimit < ds.length then .error (.tooLong ds.length) else .ok (value ds)

end Decimal

namespace NumeralError

/-- The most characters that are shown of a text that is no number, its quotes included. -/
def shownLimit : Nat := 200

/-- The wording of a refusal. -/
def message : NumeralError → String
  | .notDecimal text =>
    "invalid literal for int() with base 10: " ++
      String.ofList ((Quoted.encode text.toList).take shownLimit)
  | .tooLong digits =>
    "Exceeds the limit (" ++ Decimal.ofNat Decimal.digitLimit ++
      " digits) for integer string conversion: value has " ++ Decimal.ofNat digits ++
      " digits; use sys.set_int_max_str_digits() to increase the limit"

end NumeralError

end Monkey.Text
