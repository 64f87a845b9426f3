import Mathlib.Tactic.SplitIfs
import Monkey.Proofs.QuotedText
import Monkey.Token

/-!
# Quoted text is printable

Quoting leaves printable characters as they are and writes every other one with a backslash, letters and
digits. The names of the kinds of tokens are printable as well. The characters that end a line are not, so
what is put together from names and quoted texts takes one line.
-/

namespace Monkey

namespace Text

/-- The characters of ASCII from the space to the tilde are printable. -/
theorem isPrintable_of_ascii {c : Char} (hspace : 0x20 ≤ c.toNat) (htilde : c.toNat < 0x7F) :
    isPrintable c = true := by
  unfold isPrintable unprintableRanges
  rw [CodeRanges.contains, CodeRanges.contains_cons_of_lt _ htilde]
  simpa [Nat.lt_iff_add_one_le] using hspace

/-- A text of printable characters. -/
def Printable (text : List Char) : Prop := ∀ c ∈ text, isPrintable c = true

instance : DecidablePred Printable := fun text =>
  decidable_of_iff (text.all isPrintable = true) List.all_eq_true

@[simp]
theorem printable_append {first second : List Char} :
    Printable (first ++ second) ↔ Printable first ∧ Printable second :=
  List.forall_mem_append

@[simp]
theorem printable_cons {c : Char} {text : List Char} :
    Printable (c :: text) ↔ isPrintable c = true ∧ Printable text :=
  List.forall_mem_cons

@[simp]
theorem printable_nil : Printable [] := fun _ hc => absurd hc List.not_mem_nil

theorem printable_replicate {c : Char} (h : isPrintable c = true) (n : Nat) :
    Printable (List.replicate n c) := fun _ hd => (List.eq_of_mem_replicate hd) ▸ h

/-- The end of a line is not printable. -/
theorem Printable.lineFeed_not_mem {text : List Char} (h : Printable text) : '\n' ∉ text := fun hmem =>
  absurd (h '\n' hmem) (by decide)

theorem isPrintable_hexDigit : ∀ n < 16, isPrintable (hexDigit n) = true := by decide

theorem printable_hexDigits (width n : Nat) : Printable (hexDigits width n) := by
  induction width generalizing n with
  | zero => exact printable_nil
  | succ width ih =>
    have hlast := isPrintable_hexDigit (n % 16) (Nat.mod_lt n (by decide))
    rw [hexDigits, printable_append]
    exact ⟨ih (n / 16), by simpa using hlast⟩

namespace Quoted

theorem isPrintable_backslash : isPrintable backslash = true := isPrintable_of_ascii (by decide) (by decide)

theorem isPrintable_mark (text : List Char) : isPrintable (mark text) = true := by
  rcases mark_cases text with h | h <;> rw [h] <;> exact isPrintable_of_ascii (by decide) (by decide)

theorem printable_escapeCode (n : Nat) : Printable (escapeCode n) := by
  have hx : isPrintable 'x' = true := isPrintable_of_ascii (by decide) (by decide)
  have hu : isPrintable 'u' = true := isPrintable_of_ascii (by decide) (by decide)
  have hU : isPrintable 'U' = true := isPrintable_of_ascii (by decide) (by decide)
  unfold escapeCode
  split_ifs <;> simp [isPrintable_backslash, printable_hexDigits, hx, hu, hU]

/-- A character that is not printable is escaped. -/
theorem printable_escape {mark : Char} (hmark : isPrintable mark = true) (c : Char) :
    Printable (escape mark c) := by
  have ht : isPrintable 't' = true := isPrintable_of_ascii (by decide) (by decide)
  have hn : isPrintable 'n' = true := isPrintable_of_ascii (by decide) (by decide)
  have hr : isPrintable 'r' = true := isPrintable_of_ascii (by decide) (by decide)
  unfold escape
  split_ifs with hescaped htab hfeed hreturn hprintable
  · rcases hescaped with rfl | rfl
    · simp [isPrintable_backslash, hmark]
    · simp [isPrintable_backslash]
  · simp [isPrintable_backslash, ht]
  · simp [isPrintable_backslash, hn]
  · simp [isPrintable_backslash, hr]
  · simpa using hprintable
  · exact printable_escapeCode c.toNat

/-- A quoted text is printable, whatever the text is. -/
theorem printable_encode (text : List Char) : Printable (encode text) := by
  have hmark := isPrintable_mark text
  rw [encode, List.cons_append, printable_cons, printable_append]
  refine ⟨hmark, fun c hc => ?_, by simpa using hmark⟩
  obtain ⟨d, -, hd⟩ := List.mem_flatMap.mp hc
  exact printable_escape hmark d c hd

end Quoted

end Text

/-- The name of a kind is printable. -/
theorem TokenKind.printable_name (kind : TokenKind) : Text.Printable kind.name.toList := by
  cases kind <;> decide

end Monkey
