import Monkey.Text.Utf8

/-!
# What a byte list encodes

Decoding succeeds exactly on the byte lists that encode a text, with this text. So a byte list is refused
exactly if it encodes no text.

The first byte of a character says how many bytes follow it, and the range of the second byte leaves out
the overlong forms, the surrogates and what is beyond the last code point.
-/

namespace Monkey.Text.Utf8

/-- The bytes of a text. -/
def encode (text : List Char) : List UInt8 := text.flatMap String.utf8EncodeChar

variable {b : UInt8} {bytes rest after : List UInt8} {n low high good code point : Nat}

/-- The four lengths of a character, by its first byte. -/
theorem lead?_eq_some_iff {first : Nat} : lead? first = some (n, low, high) ↔
    (n = 1 ∧ first < 0x80 ∧ low = 0 ∧ high = 0) ∨
    (n = 2 ∧ 0xC2 ≤ first ∧ first < 0xE0 ∧ low = 0x80 ∧ high = 0xBF) ∨
    (n = 3 ∧ 0xE0 ≤ first ∧ first < 0xF0 ∧ low = (if first = 0xE0 then 0xA0 else 0x80) ∧
      high = (if first = 0xED then 0x9F else 0xBF)) ∨
    (n = 4 ∧ 0xF0 ≤ first ∧ first ≤ 0xF4 ∧ low = (if first = 0xF0 then 0x90 else 0x80) ∧
      high = (if first = 0xF4 then 0x8F else 0xBF)) := by
  unfold lead?
  grind

theorem continuation_zero_eq_ok : continuation 0 low high good code bytes = .ok (point, after) ↔
    code = point ∧ bytes = after := by
  simp [continuation]

/-- A continuation byte adds its six bits. -/
theorem continuation_succ_eq_ok :
    continuation (n + 1) low high good code bytes = .ok (point, after) ↔
      ∃ c rest, bytes = c :: rest ∧ low ≤ c.toNat ∧ c.toNat ≤ high ∧
        continuation n 0x80 0xBF (good + 1) (code * 0x40 + c.toNat % 0x40) rest = .ok (point, after) := by
  cases bytes with
  | nil => simp [continuation]
  | cons c rest =>
    rw [continuation]
    constructor
    · intro h
      split at h
      · rename_i hrange
        exact ⟨c, rest, rfl, hrange.1, hrange.2, h⟩
      · cases h
    · rintro ⟨c, rest, ⟨⟩, hlow, hhigh, h⟩
      rw [if_pos ⟨hlow, hhigh⟩, h]

/-- A byte is known by its value. -/
theorem ofNat_eq {value : Nat} (h : b.toNat = value) : UInt8.ofNat value = b := by
  rw [← h, UInt8.ofNat_toNat]

theorem toNat_ofNat {value : Nat} (h : value < 256) : (UInt8.ofNat value).toNat = value := by
  rw [UInt8.toNat_ofNat', Nat.mod_eq_of_lt h]

/-! ## The bytes of a character -/

variable {c : Char}

/-- A character is no surrogate. -/
theorem toNat_valid (c : Char) : c.toNat < 0xD800 ∨ 0xDFFF < c.toNat ∧ c.toNat < 0x110000 := c.valid

theorem toNat_ofNat_of_valid (h : point < 0xD800 ∨ 0xDFFF < point ∧ point < 0x110000) :
    (Char.ofNat point).toNat = point := by
  rw [Char.ofNat, dif_pos h]
  rfl

theorem encode_one (h : c.toNat < 0x80) : String.utf8EncodeChar c = [UInt8.ofNat c.toNat] := by
  change c.val.toNat < 0x80 at h
  rw [String.utf8EncodeChar, if_pos (by omega)]
  rfl

theorem encode_two (h : 0x80 ≤ c.toNat) (h' : c.toNat < 0x800) :
    String.utf8EncodeChar c = [UInt8.ofNat (c.toNat / 64 + 192), UInt8.ofNat (c.toNat % 64 + 128)] := by
  change 0x80 ≤ c.val.toNat at h
  change c.val.toNat < 0x800 at h'
  rw [String.utf8EncodeChar, if_neg (by omega), if_pos (by omega), Nat.mod_eq_of_lt (by omega)]
  rfl

theorem encode_three (h : 0x800 ≤ c.toNat) (h' : c.toNat < 0x10000) :
    String.utf8EncodeChar c = [UInt8.ofNat (c.toNat / 4096 + 224),
      UInt8.ofNat (c.toNat / 64 % 64 + 128), UInt8.ofNat (c.toNat % 64 + 128)] := by
  change 0x800 ≤ c.val.toNat at h
  change c.val.toNat < 0x10000 at h'
  rw [String.utf8EncodeChar, if_neg (by omega), if_neg (by omega), if_pos (by omega),
    Nat.mod_eq_of_lt (show c.val.toNat / 4096 < 16 by omega)]
  rfl

theorem encode_four (h : 0x10000 ≤ c.toNat) :
    String.utf8EncodeChar c = [UInt8.ofNat (c.toNat / 262144 + 240),
      UInt8.ofNat (c.toNat / 4096 % 64 + 128), UInt8.ofNat (c.toNat / 64 % 64 + 128),
      UInt8.ofNat (c.toNat % 64 + 128)] := by
  have hvalid := toNat_valid c
  change 0x10000 ≤ c.val.toNat at h
  change c.val.toNat < 0xD800 ∨ 0xDFFF < c.val.toNat ∧ c.val.toNat < 0x110000 at hvalid
  rw [String.utf8EncodeChar, if_neg (by omega), if_neg (by omega), if_neg (by omega),
    Nat.mod_eq_of_lt (show c.val.toNat / 262144 < 8 by omega)]
  rfl

/-- A first byte and its continuation bytes that are read encode a character. -/
theorem exists_encode_of_continuation (hlead : lead? b.toNat = some (n, low, high))
    (hcont : continuation (n - 1) low high 1 (leadBits n b.toNat) rest = .ok (point, after)) :
    (Char.ofNat point).toNat = point ∧
      b :: rest = String.utf8EncodeChar (Char.ofNat point) ++ after := by
  rcases lead?_eq_some_iff.mp hlead with ⟨rfl, hb, -, -⟩ | ⟨rfl, hb, hb', rfl, rfl⟩ |
    ⟨rfl, hb, hb', hlow, hhigh⟩ | ⟨rfl, hb, hb', hlow, hhigh⟩
  · obtain ⟨rfl, rfl⟩ := continuation_zero_eq_ok.mp hcont
    simp only [leadBits]
    have hpoint : (Char.ofNat b.toNat).toNat = b.toNat := toNat_ofNat_of_valid (by omega)
    refine ⟨hpoint, ?_⟩
    rw [encode_one (by omega), hpoint, UInt8.ofNat_toNat]
    rfl
  · obtain ⟨b₁, rest, rfl, hlow, hhigh, hcont⟩ := continuation_succ_eq_ok.mp hcont
    obtain ⟨hcode, rfl⟩ := continuation_zero_eq_ok.mp hcont
    simp only [leadBits] at hcode
    have hpoint : (Char.ofNat point).toNat = point := toNat_ofNat_of_valid (by omega)
    refine ⟨hpoint, ?_⟩
    rw [encode_two (by omega) (by omega), hpoint,
      ofNat_eq (show b.toNat = point / 64 + 192 by omega),
      ofNat_eq (show b₁.toNat = point % 64 + 128 by omega)]
    rfl
  · obtain ⟨b₁, _, rfl, hlow₁, hhigh₁, hcont⟩ := continuation_succ_eq_ok.mp hcont
    obtain ⟨b₂, rest, rfl, hlow₂, hhigh₂, hcont⟩ := continuation_succ_eq_ok.mp hcont
    obtain ⟨hcode, rfl⟩ := continuation_zero_eq_ok.mp hcont
    simp only [leadBits] at hcode
    -- No overlong form and no surrogate has such a second byte.
    have hrange : 0x80 ≤ b₁.toNat ∧ b₁.toNat ≤ 0xBF ∧ (b.toNat = 0xE0 → 0xA0 ≤ b₁.toNat) ∧
        (b.toNat = 0xED → b₁.toNat ≤ 0x9F) := by grind
    have hpoint : (Char.ofNat point).toNat = point := toNat_ofNat_of_valid (by omega)
    refine ⟨hpoint, ?_⟩
    rw [encode_three (by omega) (by omega), hpoint,
      ofNat_eq (show b.toNat = point / 4096 + 224 by omega),
      ofNat_eq (show b₁.toNat = point / 64 % 64 + 128 by omega),
      ofNat_eq (show b₂.toNat = point % 64 + 128 by omega)]
    rfl
  · obtain ⟨b₁, _, rfl, hlow₁, hhigh₁, hcont⟩ := continuation_succ_eq_ok.mp hcont
    obtain ⟨b₂, _, rfl, hlow₂, hhigh₂, hcont⟩ := continuation_succ_eq_ok.mp hcont
    obtain ⟨b₃, rest, rfl, hlow₃, hhigh₃, hcont⟩ := continuation_succ_eq_ok.mp hcont
    obtain ⟨hcode, rfl⟩ := continuation_zero_eq_ok.mp hcont
    simp only [leadBits] at hcode
    -- No overlong form and nothing beyond the last code point has such a second byte.
    have hrange : 0x80 ≤ b₁.toNat ∧ b₁.toNat ≤ 0xBF ∧ (b.toNat = 0xF0 → 0x90 ≤ b₁.toNat) ∧
        (b.toNat = 0xF4 → b₁.toNat ≤ 0x8F) := by grind
    have hpoint : (Char.ofNat point).toNat = point := toNat_ofNat_of_valid (by omega)
    refine ⟨hpoint, ?_⟩
    rw [encode_four (by omega), hpoint,
      ofNat_eq (show b.toNat = point / 262144 + 240 by omega),
      ofNat_eq (show b₁.toNat = point / 4096 % 64 + 128 by omega),
      ofNat_eq (show b₂.toNat = point / 64 % 64 + 128 by omega),
      ofNat_eq (show b₃.toNat = point % 64 + 128 by omega)]
    rfl

/-- A continuation byte with six given bits adds these bits. -/
theorem continuation_ofNat {bits : Nat} (hbits : bits < 64) (hlow : low ≤ bits + 128)
    (hhigh : bits + 128 ≤ high) :
    continuation (n + 1) low high good code (UInt8.ofNat (bits + 128) :: rest) =
      continuation n 0x80 0xBF (good + 1) (code * 0x40 + bits) rest := by
  have hvalue : (UInt8.ofNat (bits + 128)).toNat = bits + 128 := toNat_ofNat (by omega)
  have hmod : (bits + 128) % 0x40 = bits := by omega
  rw [continuation, hvalue, if_pos ⟨hlow, hhigh⟩, hmod]

/-- The bytes of a character are read as this character, whatever follows them. -/
theorem continuation_of_encode (c : Char) (after : List UInt8) :
    ∃ b rest n low high, String.utf8EncodeChar c ++ after = b :: rest ∧
      lead? b.toNat = some (n, low, high) ∧
      continuation (n - 1) low high 1 (leadBits n b.toNat) rest = .ok (c.toNat, after) := by
  have hvalid := toNat_valid c
  by_cases hone : c.toNat < 0x80
  · refine ⟨_, after, 1, 0, 0, by rw [encode_one hone]; rfl, ?_, ?_⟩ <;> rw [toNat_ofNat (by omega)]
    · exact lead?_eq_some_iff.mpr (.inl ⟨rfl, hone, rfl, rfl⟩)
    · rfl
  by_cases htwo : c.toNat < 0x800
  · refine ⟨_, _, 2, 0x80, 0xBF, by rw [encode_two (by omega) htwo]; rfl, ?_, ?_⟩ <;>
      rw [toNat_ofNat (by omega)]
    · exact lead?_eq_some_iff.mpr (.inr (.inl ⟨rfl, by omega, by omega, rfl, rfl⟩))
    · refine (continuation_ofNat (by omega) (by omega) (by omega)).trans ?_
      refine continuation_zero_eq_ok.mpr ⟨?_, rfl⟩
      simp only [leadBits]
      omega
  -- From here on the range of the second byte depends on the first one.
  by_cases hthree : c.toNat < 0x10000
  · refine ⟨_, _, 3, if c.toNat / 4096 + 224 = 0xE0 then 0xA0 else 0x80,
      if c.toNat / 4096 + 224 = 0xED then 0x9F else 0xBF, by rw [encode_three (by omega) hthree]; rfl,
      ?_, ?_⟩ <;> rw [toNat_ofNat (by omega)]
    · exact lead?_eq_some_iff.mpr (.inr (.inr (.inl ⟨rfl, by omega, by omega, rfl, rfl⟩)))
    · refine (continuation_ofNat (by omega) (by split <;> omega) (by split <;> omega)).trans ?_
      refine (continuation_ofNat (by omega) (by omega) (by omega)).trans ?_
      refine continuation_zero_eq_ok.mpr ⟨?_, rfl⟩
      simp only [leadBits]
      omega
  · refine ⟨_, _, 4, if c.toNat / 262144 + 240 = 0xF0 then 0x90 else 0x80,
      if c.toNat / 262144 + 240 = 0xF4 then 0x8F else 0xBF, by rw [encode_four (by omega)]; rfl,
      ?_, ?_⟩ <;> rw [toNat_ofNat (by omega)]
    · exact lead?_eq_some_iff.mpr (.inr (.inr (.inr ⟨rfl, by omega, by omega, rfl, rfl⟩)))
    · refine (continuation_ofNat (by omega) (by split <;> omega) (by split <;> omega)).trans ?_
      refine (continuation_ofNat (by omega) (by omega) (by omega)).trans ?_
      refine (continuation_ofNat (by omega) (by omega) (by omega)).trans ?_
      refine continuation_zero_eq_ok.mpr ⟨?_, rfl⟩
      simp only [leadBits]
      omega

/-! ## Texts -/

/-- One character of a byte list is decoded after the other. -/
theorem decodeFrom_encode_append (c : Char) (position : Nat) (decoded : List Char)
    (after : List UInt8) :
    ∃ position', decodeFrom position decoded (String.utf8EncodeChar c ++ after) =
      decodeFrom position' (c :: decoded) after := by
  obtain ⟨b, rest, n, low, high, hbytes, hlead, hcont⟩ := continuation_of_encode c after
  refine ⟨position + n, ?_⟩
  rw [hbytes, decodeFrom, hlead]
  dsimp only
  split
  · rename_i fault count herror
    rw [hcont] at herror
    cases herror
  · rename_i point last hok
    rw [hcont] at hok
    obtain ⟨rfl, rfl⟩ := Prod.mk.inj (Except.ok.inj hok)
    rw [Char.ofNat_toNat]

/-- The bytes of a text are decoded to it, after what has been decoded before them. -/
theorem decodeFrom_encode (text : List Char) (position : Nat) (decoded : List Char) :
    decodeFrom position decoded (encode text) = .ok (decoded.reverse ++ text) := by
  induction text generalizing position decoded with
  | nil =>
    rw [List.append_nil, encode, List.flatMap_nil, decodeFrom]
  | cons c text ih =>
    obtain ⟨position', hstep⟩ := decodeFrom_encode_append c position decoded (encode text)
    rw [encode, List.flatMap_cons]
    change decodeFrom position decoded (String.utf8EncodeChar c ++ encode text) = _
    rw [hstep, ih, List.reverse_cons, List.append_assoc]
    rfl

/-- The bytes of a text are decoded to the text. -/
theorem decode_encode (text : List Char) : decode (encode text) = .ok text := decodeFrom_encode text 0 []

/-- What is decoded encodes to the bytes. -/
theorem encode_of_decodeFrom {text decoded : List Char} {position : Nat}
    (h : decodeFrom position decoded bytes = .ok text) :
    ∃ more, text = decoded.reverse ++ more ∧ encode more = bytes := by
  fun_induction decodeFrom position decoded bytes with
  | case1 position decoded =>
    cases h
    exact ⟨[], (List.append_nil _).symm, rfl⟩
  | case2 | case3 => cases h
  | case4 position decoded b rest length low high hlead point after hcont ih =>
    obtain ⟨more, rfl, rfl⟩ := ih h
    obtain ⟨-, hbytes⟩ := exists_encode_of_continuation hlead hcont
    refine ⟨Char.ofNat point :: more, by simp, ?_⟩
    rw [encode, List.flatMap_cons, hbytes]
    rfl

/-- A byte list is decoded exactly if it encodes a text, and to this text. -/
theorem decode_eq_ok_iff {text : List Char} : decode bytes = .ok text ↔ encode text = bytes := by
  constructor
  · intro h
    obtain ⟨more, rfl, hmore⟩ := encode_of_decodeFrom h
    exact hmore
  · rintro rfl
    exact decode_encode text

/-- A byte list is refused exactly if it encodes no text. -/
theorem exists_decode_eq_error_iff :
    (∃ error, decode bytes = .error error) ↔ ∀ text, encode text ≠ bytes := by
  cases hdecode : decode bytes with
  | error error =>
    refine iff_of_true ⟨error, rfl⟩ fun text htext => ?_
    rw [decode_eq_ok_iff.mpr htext] at hdecode
    cases hdecode
  | ok text =>
    exact iff_of_false (fun ⟨_, herror⟩ => nomatch herror)
      fun h => h text (decode_eq_ok_iff.mp hdecode)

end Monkey.Text.Utf8
