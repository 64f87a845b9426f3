import Mathlib.Data.List.Basic
import Mathlib.Data.List.TakeWhile
import Monkey.Node.Dump
import Monkey.Proofs.Numeral
import Monkey.Proofs.QuotedText

/-!
# The line of a node is read back

The title of a node is letters, and a parenthesis or a space ends it if anything follows. So the line tells
the kind of the node, and with it which value stands between the parentheses. A value is either quoted or has
no closing parenthesis in it, and the text that the node starts with is quoted again. So the line tells
the kind of a node, its plain fields and the text that it starts with.
-/

namespace Monkey

/-- A front of characters with a property ends where a character without it follows, or nothing. -/
theorem append_inj_of_takeWhile {p : Char → Bool} {front front' rest rest' : List Char}
    (hfront : ∀ c ∈ front, p c = true) (hfront' : ∀ c ∈ front', p c = true)
    (hrest : ∀ c ∈ rest.head?, p c = false) (hrest' : ∀ c ∈ rest'.head?, p c = false)
    (h : front ++ rest = front' ++ rest') : front = front' ∧ rest = rest' := by
  have htake : ∀ {text after : List Char}, (∀ c ∈ text, p c = true) →
      (∀ c ∈ after.head?, p c = false) → (text ++ after).takeWhile p = text := by
    intro text after htext hafter
    rw [List.takeWhile_append_of_pos htext]
    cases after with
    | nil => simp
    | cons c after => simp [hafter c rfl]
  have heq : front = front' := by rw [← htake hfront hrest, h, htake hfront' hrest']
  subst heq
  exact ⟨rfl, List.append_cancel_left h⟩

/-- What is written for a value, and then a mark, tells the value. -/
def ReadBackBefore {α : Type} (mark : Char) (write : α → String) : Prop :=
  ∀ ⦃x y : α⦄ ⦃rest rest' : List Char⦄,
    (write x).toList ++ mark :: rest = (write y).toList ++ mark :: rest' → x = y ∧ rest = rest'

/-- A text without the mark ends at the mark. -/
theorem readBackBefore_of_not_mem {α : Type} {mark : Char} {write : α → String}
    (hinj : Function.Injective write) (hmark : ∀ x, mark ∉ (write x).toList) :
    ReadBackBefore mark write := by
  have hchars : ∀ x, ∀ c ∈ (write x).toList, (c != mark) = true := fun x c hc => by
    simpa using ne_of_mem_of_not_mem hc (hmark x)
  intro x y rest rest' h
  obtain ⟨htext, hrest⟩ :=
    append_inj_of_takeWhile (hchars x) (hchars y) (by simp) (by simp) h
  exact ⟨hinj (String.toList_inj.mp htext), (List.cons.inj hrest).2⟩

namespace Text

theorem readBackBefore_quoted (mark : Char) : ReadBackBefore mark quoted := by
  intro x y rest rest' h
  obtain ⟨htext, hrest⟩ := quoted_append_inj h
  exact ⟨htext, (List.cons.inj hrest).2⟩

namespace Decimal

theorem ofNat_injective : Function.Injective ofNat := by
  intro m n h
  rw [← asciiValue_ofNat m, h, asciiValue_ofNat]

/-- The text of a natural number consists of digits. -/
theorem isDigit_of_mem_ofNat {n : Nat} {c : Char} (h : c ∈ (ofNat n).toList) : isDigit c = true := by
  rw [ofNat, String.toList_ofList] at h
  exact (isNumber_digits n).2 c h

/-- A minus sign tells a negative number from a natural one. -/
theorem ofInt_injective : Function.Injective ofInt := by
  have hsign : ∀ m n : Nat, ofNat m ≠ "-" ++ ofNat n := by
    intro m n h
    have hmem : '-' ∈ (ofNat m).toList := by rw [h]; simp
    exact absurd (isDigit_of_mem_ofNat hmem) (by decide)
  intro m n h
  cases m with
  | ofNat m =>
    cases n with
    | ofNat n => exact congrArg Int.ofNat (ofNat_injective h)
    | negSucc n => exact absurd h (hsign _ _)
  | negSucc m =>
    cases n with
    | ofNat n => exact absurd h.symm (hsign _ _)
    | negSucc n =>
      have hdigits : ofNat (m + 1) = ofNat (n + 1) := by
        rw [← String.toList_inj] at h ⊢
        simpa [ofInt] using h
      rw [Nat.succ_injective (ofNat_injective hdigits)]

theorem readBackBefore_ofInt : ReadBackBefore ')' ofInt := by
  refine readBackBefore_of_not_mem ofInt_injective fun n hmem => ?_
  have hdigit : ∀ n : Nat, ')' ∉ (ofNat n).toList := fun n h =>
    absurd (isDigit_of_mem_ofNat h) (by decide)
  cases n with
  | ofNat n => exact hdigit n hmem
  | negSucc n =>
    rw [ofInt, String.toList_append, List.mem_append] at hmem
    exact hmem.elim (by decide) (hdigit (n + 1))

end Decimal

end Text

theorem truthText_injective : Function.Injective truthText := by
  intro x y h
  cases x <;> cases y <;> first | rfl | exact absurd h (by decide)

theorem readBackBefore_truthText : ReadBackBefore ')' truthText :=
  readBackBefore_of_not_mem truthText_injective (by decide)

namespace Node

/-- A named value in parentheses tells the value and where the parentheses close. -/
theorem fieldList_append_inj {α : Type} {write : α → String} (hwrite : ReadBackBefore ')' write)
    {name : String} {x y : α} {rest rest' : List Char}
    (h : (fieldList [(name, write x)]).toList ++ rest =
      (fieldList [(name, write y)]).toList ++ rest') : x = y ∧ rest = rest' :=
  hwrite (by simpa [fieldList] using h)

/-- Nodes of one kind with the same text of their plain fields have the same plain fields. -/
theorem plainFields_append_inj {a b : Node} (hkind : a.kind = b.kind) {rest rest' : List Char}
    (h : (fieldList a.plainFields).toList ++ rest = (fieldList b.plainFields).toList ++ rest') :
    a.plainFields = b.plainFields ∧ rest = rest' := by
  cases a <;> cases b <;> cases hkind
  case identifier.identifier | prefixOp.prefixOp | infixOp.infixOp =>
    obtain ⟨hvalue, hrest⟩ := fieldList_append_inj (Text.readBackBefore_quoted _) h
    exact ⟨by rw [plainFields, plainFields, hvalue], hrest⟩
  case integer.integer =>
    obtain ⟨hvalue, hrest⟩ := fieldList_append_inj Text.Decimal.readBackBefore_ofInt h
    exact ⟨by rw [plainFields, plainFields, hvalue], hrest⟩
  case boolean.boolean =>
    obtain ⟨hvalue, hrest⟩ := fieldList_append_inj readBackBefore_truthText h
    exact ⟨by rw [plainFields, plainFields, hvalue], hrest⟩
  all_goals exact ⟨rfl, List.append_cancel_left h⟩

/-- The quoted text at the end of a line tells the text. -/
theorem literalTag_injective : Function.Injective literalTag := by
  intro x y h
  unfold literalTag at h
  split_ifs at h with hx hy hy
  · rw [hx, hy]
  · exact absurd (congrArg String.toList h) (by simp)
  · exact absurd (congrArg String.toList h) (by simp)
  · have hquoted : (Text.quoted x).toList ++ ['>'] = (Text.quoted y).toList ++ ['>'] := by
      simpa using congrArg String.toList h
    exact (Text.quoted_append_inj hquoted).1

/-- A title consists of letters only. -/
theorem ne_of_mem_title {kind : NodeKind} :
    ∀ c ∈ kind.title.toList, (c != '(' && c != ' ') = true := by
  have hall : kind.title.toList.all (fun c => c != '(' && c != ' ') = true := by
    cases kind <;> decide
  exact List.all_eq_true.mp hall

theorem title_injective : Function.Injective NodeKind.title := by
  have hall : ∀ first ∈ NodeKind.all, ∀ second ∈ NodeKind.all,
      first.title = second.title → first = second := by decide
  exact fun first second => hall first (NodeKind.mem_all first) second (NodeKind.mem_all second)

/-- What follows the title starts with a parenthesis or a space. -/
theorem head_after_title (node : Node) :
    ∀ c ∈ ((fieldList node.plainFields).toList ++ (literalTag node.tokenLiteral).toList).head?,
      (c != '(' && c != ' ') = false := by
  unfold fieldList literalTag
  split <;> split_ifs <;> simp

/-- The line of a node tells its kind, its plain fields and the text that it starts with. -/
theorem header_inj {a b : Node} (h : a.header = b.header) :
    a.kind = b.kind ∧ a.plainFields = b.plainFields ∧ a.tokenLiteral = b.tokenLiteral := by
  have hchars := congrArg String.toList h
  simp only [header, String.toList_append, List.append_assoc] at hchars
  obtain ⟨htitle, hafter⟩ := append_inj_of_takeWhile ne_of_mem_title ne_of_mem_title
    (head_after_title a) (head_after_title b) hchars
  have hkind := title_injective (String.toList_inj.mp htitle)
  obtain ⟨hfields, htag⟩ := plainFields_append_inj hkind hafter
  exact ⟨hkind, hfields, literalTag_injective (String.toList_inj.mp htag)⟩

end Node

end Monkey
