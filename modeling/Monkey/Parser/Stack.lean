/-!
# Stacks

A call of a method takes a frame of the stack until it returns, and what a method does by itself takes a
number of frames while it lasts. How many these are depends on the interpreter and not on the program. So
they are part of the stack, and nothing is assumed of them.

A stack is compared with greater ones, up to one without an end. What depends on a stack is settled if it is
the same from some number of frames on as without an end.
-/

namespace Monkey

/-- What a method of a parser or a lexer does by itself. -/
inductive Operation where
  /-- Compare a character with blanks, digits or operators. -/
  | compare
  /-- Look at whether a character belongs to a word, or at the one after it. -/
  | look
  /-- Go on to the next character. -/
  | character
  /-- Look for a word among the keywords. -/
  | keyword
  /-- Make a token. -/
  | token
  /-- Test the kind of a token of the window. -/
  | test
  /-- Look up a precedence. -/
  | precedence
  /-- Look up a rule. -/
  | rule
  /-- Make a node of a tree. -/
  | node
  /-- Put something into a list. -/
  | list
  /-- Convert the text of a number. -/
  | number
  /-- Report a syntax error. -/
  | report
deriving DecidableEq, Repr

/-- What is left of a stack: a number of frames, or no end of them. -/
structure Stack where
  frames : Option Nat
  /-- The frames that an operation takes. -/
  depth : Operation → Nat

namespace Stack

/-- A stack without an end. -/
def unlimited : Stack := ⟨none, fun _ => 0⟩

/-- A stack that has a number of frames left. -/
def holds (stack : Stack) (count : Nat) : Bool := stack.frames.all fun frames => decide (count ≤ frames)

/-- The stack after one more frame has been taken. -/
def enter (stack : Stack) : Stack := { stack with frames := stack.frames.map (· - 1) }

/-- There is room for an operation. -/
def fits (stack : Stack) (operation : Operation) : Bool := stack.holds (stack.depth operation)

/-- There is room for a method that makes an operation. -/
def fitsCall (stack : Stack) (operation : Operation) : Bool := stack.holds 1 && stack.enter.fits operation

/-- A stack is at most another one if whatever fits in it fits in the other one. -/
instance : LE Stack where
  le less more := (∀ count, less.holds count = true → more.holds count = true) ∧
    ∀ operation, more.depth operation ≤ less.depth operation

variable {stack less more : Stack} {count fewer : Nat} {operation : Operation}

theorem holds_of_le (hle : fewer ≤ count) (h : stack.holds count = true) : stack.holds fewer = true := by
  simp only [holds, Option.all_eq_true, decide_eq_true_eq] at h ⊢
  exact fun frames hframes => Nat.le_trans hle (h frames hframes)

theorem holds_enter : stack.enter.holds count = true ↔ count = 0 ∨ stack.holds (count + 1) = true := by
  rcases stack with ⟨_ | frames, depth⟩
  · simp [holds, enter]
  · simp only [holds, enter, Option.map_some, Option.all_some, decide_eq_true_eq]
    omega

theorem le_refl (stack : Stack) : stack ≤ stack := ⟨fun _ h => h, fun _ => Nat.le_refl _⟩

theorem le_unlimited (stack : Stack) : stack ≤ unlimited := ⟨fun _ _ => rfl, fun _ => Nat.zero_le _⟩

/-- With the same depth of operations, a stack with no more frames is at most the other one. -/
theorem le_of_frames (depth : Operation → Nat) (hle : fewer ≤ count) :
    (⟨some fewer, depth⟩ : Stack) ≤ ⟨some count, depth⟩ := by
  refine ⟨fun needed h => ?_, fun _ => Nat.le_refl _⟩
  simp only [holds, Option.all_some, decide_eq_true_eq] at h ⊢
  exact Nat.le_trans h hle

theorem enter_le_enter (h : less ≤ more) : less.enter ≤ more.enter := by
  refine ⟨fun count hcount => ?_, h.2⟩
  rw [holds_enter] at hcount ⊢
  exact hcount.imp_right (h.1 _)

theorem fits_of_le (h : less ≤ more) (hfits : less.fits operation = true) : more.fits operation = true :=
  holds_of_le (h.2 operation) (h.1 _ hfits)

theorem fitsCall_of_le (h : less ≤ more) (hfits : less.fitsCall operation = true) :
    more.fitsCall operation = true := by
  rw [fitsCall, Bool.and_eq_true] at hfits ⊢
  exact ⟨h.1 1 hfits.1, fits_of_le (enter_le_enter h) hfits.2⟩

/-- From some number of frames on, what depends on the stack is as it is without an end of the stack. -/
def Settled {γ : Type} (depth : Operation → Nat) (value : Stack → γ) : Prop :=
  ∃ frames, ∀ more, frames ≤ more → value ⟨some more, depth⟩ = value unlimited

variable {γ : Type} {depth : Operation → Nat} {value other : Stack → γ}

theorem settled_const (depth : Operation → Nat) (constant : γ) : Settled depth fun _ => constant :=
  ⟨0, fun _ _ => rfl⟩

theorem settled_holds (depth : Operation → Nat) (count : Nat) :
    Settled depth fun stack => stack.holds count :=
  ⟨count, fun _ hmore => decide_eq_true hmore⟩

theorem settled_fits (depth : Operation → Nat) (operation : Operation) :
    Settled depth fun stack => stack.fits operation :=
  settled_holds depth (depth operation)

theorem Settled.enter (h : Settled depth value) : Settled depth fun stack => value stack.enter := by
  obtain ⟨frames, h⟩ := h
  exact ⟨frames + 1, fun more hmore => h (more - 1) (Nat.le_sub_of_add_le hmore)⟩

theorem Settled.ite {holds : Stack → Bool} (hholds : Settled depth holds) (h : Settled depth value)
    (hother : Settled depth other) :
    Settled depth fun stack => if holds stack then value stack else other stack := by
  obtain ⟨first, hholds⟩ := hholds
  obtain ⟨second, h⟩ := h
  obtain ⟨third, hother⟩ := hother
  refine ⟨first + second + third, fun more hmore => ?_⟩
  simp only [hholds more (by omega), h more (by omega), hother more (by omega)]

theorem settled_fitsCall (depth : Operation → Nat) (operation : Operation) :
    Settled depth fun stack => stack.fitsCall operation := by
  obtain ⟨frames, h⟩ := (settled_fits depth operation).enter
  refine ⟨frames + 1, fun more hmore => ?_⟩
  have hholds : (⟨some more, depth⟩ : Stack).holds 1 = true := decide_eq_true (by omega)
  simp only [fitsCall, hholds, h more (by omega)]
  rfl

end Stack

end Monkey
