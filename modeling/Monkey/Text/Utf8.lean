import Monkey.Text.Decimal

/-!
# UTF-8

Decoding reads one character after the other and stops at the first byte sequence that is not
the encoding of a Unicode scalar value. The fault names the offending bytes and says what is
wrong with them: a byte that starts no character, a character broken off by a byte that does
not continue it, or one cut short by the end of the data. Overlong forms and surrogates count
as broken off at their second byte.
-/

namespace Monkey.Text.Utf8

/-- What is wrong with the bytes that could not be decoded. -/
inductive Fault where
  | startByte
  | continuationByte
  | endOfData
deriving DecidableEq, Repr

/-- The bytes that could not be decoded: where they start, how many they are, the first of them. -/
structure DecodeError where
  fault : Fault
  position : Nat
  count : Nat
  byte : UInt8
deriving DecidableEq, Repr

/-- The length of a character and the range of its second byte, read off its first byte. -/
def lead? (b : Nat) : Option (Nat × Nat × Nat) :=
  if b < 0x80 then some (1, 0, 0)
  else if b < 0xC2 then none
  else if b < 0xE0 then some (2, 0x80, 0xBF)
  else if b = 0xE0 then some (3, 0xA0, 0xBF)
  else if b = 0xED then some (3, 0x80, 0x9F)
  else if b < 0xF0 then some (3, 0x80, 0xBF)
  else if b = 0xF0 then some (4, 0x90, 0xBF)
  else if b < 0xF4 then some (4, 0x80, 0xBF)
  else if b = 0xF4 then some (4, 0x80, 0x8F)
  else none

/-- The payload of the first byte of a character of the given length. -/
def leadBits (length b : Nat) : Nat :=
  match length with
  | 1 => b
  | 2 => b % 0x20
  | 3 => b % 0x10
  | _ => b % 0x08

/-- Read `needed` continuation bytes, the first of them between `low` and `high`; give the code
point and the bytes after it, or the fault and the number of bytes that were in order. -/
def continuation : Nat → Nat → Nat → Nat → Nat → List UInt8 → Except (Fault × Nat) (Nat × List UInt8)
  | 0, _, _, _, code, rest => .ok (code, rest)
  | _ + 1, _, _, good, _, [] => .error (.endOfData, good)
  | needed + 1, low, high, good, code, b :: rest =>
    if low ≤ b.toNat ∧ b.toNat ≤ high then
      continuation needed 0x80 0xBF (good + 1) (code * 0x40 + b.toNat % 0x40) rest
    else .error (.continuationByte, good)

/-- The bytes after a character are a shorter list, or as long as none was needed. -/
theorem length_le_of_continuation {needed low high good code : Nat} {bytes rest : List UInt8}
    {point : Nat} (h : continuation needed low high good code bytes = .ok (point, rest)) :
    rest.length ≤ bytes.length := by
  induction needed generalizing low high good code bytes with
  | zero => simp only [continuation, Except.ok.injEq, Prod.mk.injEq] at h; simp [h.2]
  | succ needed ih =>
    cases bytes with
    | nil => simp [continuation] at h
    | cons b bytes =>
      simp only [continuation] at h
      split at h
      · exact Nat.le_succ_of_le (ih h)
      · simp at h

/-- Read the characters of a byte list that starts at `position`, in front of which those of
`decoded` have been read, the last one first. -/
def decodeFrom (position : Nat) (decoded : List Char) (bytes : List UInt8) :
    Except DecodeError (List Char) :=
  match bytes with
  | [] => .ok decoded.reverse
  | b :: rest =>
    match lead? b.toNat with
    | none => .error ⟨.startByte, position, 1, b⟩
    | some (length, low, high) =>
      match _h : continuation (length - 1) low high 1 (leadBits length b.toNat) rest with
      | .error (fault, count) => .error ⟨fault, position, count, b⟩
      | .ok (point, after) => decodeFrom (position + length) (Char.ofNat point :: decoded) after
termination_by bytes.length
decreasing_by
  have := length_le_of_continuation _h
  simp only [List.length_cons]
  omega

/-- The wording of a fault. -/
def Fault.message : Fault → String
  | .startByte => "invalid start byte"
  | .continuationByte => "invalid continuation byte"
  | .endOfData => "unexpected end of data"

/-- The wording of a refusal: a single byte is shown, several are named by their positions. -/
def DecodeError.message (error : DecodeError) : String :=
  "'utf-8' codec can't decode " ++
    (if error.count = 1 then
      "byte 0x" ++ String.ofList (hexDigits 2 error.byte.toNat) ++ " in position " ++
        Decimal.ofNat error.position
    else
      "bytes in position " ++ Decimal.ofNat error.position ++ "-" ++
        Decimal.ofNat (error.position + error.count - 1)) ++
    ": " ++ error.fault.message

/-- The text that a byte list encodes, or its first fault. -/
def decode (bytes : List UInt8) : Except DecodeError (List Char) := decodeFrom 0 [] bytes

end Monkey.Text.Utf8
