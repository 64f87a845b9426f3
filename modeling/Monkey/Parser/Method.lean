import Monkey.Grammar.SyntaxError
import Monkey.Parser.Pull
import Monkey.Parser.Window

/-!
# Methods of a parser

A method works on the window of a parser, within a stack. It ends with a value or with a failure, and in
both cases it leaves the window where it has got to: what was read is not taken back. Methods compose so
that the first failure ends the whole.

Where the stack runs out a method fails, whatever it is doing, and so do the methods that have called it.
A stack has no other effect: in a greater one a method does the same, up to there and beyond. Every method
carries a proof of this, which its parts provide for it, and a proof that it goes on by single tokens. The
latter is also what loops of methods end by.
-/

namespace Monkey

/-- How a method ended, and the window it left. -/
inductive Ending (α : Type) where
  | done (value : α) (window : Window)
  | failed (failure : ParseFailure) (window : Window)
deriving Repr

namespace Ending

variable {α β : Type}

/-- The window that a method left. -/
def window : Ending α → Window
  | done _ window => window
  | failed _ window => window

/-- The value that a method gave, or the failure. -/
def result : Ending α → Except ParseFailure α
  | done value _ => .ok value
  | failed failure _ => .error failure

/-- Where the stack runs out, nesting is too deep at the current token. -/
def overflow (window : Window) : Ending α := .failed (.invalid (.nestingTooDeep window.cur)) window

/-- Go on after a value, and end with a failure. -/
def andThen (ending : Ending α) (following : α → Window → Ending β) : Ending β :=
  match ending with
  | done value window => following value window
  | failed failure window => .failed failure window

/-- A method has gone on by a number of tokens. If the stack has run out, this may have happened while the
window was being moved: then the current token is the right one already, and the rest of the window is not. -/
inductive Reaches (start : Window) (count : Nat) : Ending α → Prop
  | done (value : α) : Reaches start count (.done value (start.moved count))
  | failed (failure : ParseFailure) : Reaches start count (.failed failure (start.moved count))
  | overflow {window : Window} : window.cur = (start.moved count).cur →
      Reaches start count (.failed (.invalid (.nestingTooDeep window.cur)) window)

/-- A method ends in a stack as it does in a greater one, or else the stack has run out at a token that is
current in the greater one as well, at the end or before. -/
inductive Agrees (start : Window) : Ending α → Ending α → Prop
  | same {ending : Ending α} {count : Nat} : ending.Reaches start count → Agrees start ending ending
  | overflow {window : Window} {long : Ending α} {count further : Nat} :
      window.cur = (start.moved count).cur → count ≤ further → long.Reaches start further →
      Agrees start (.failed (.invalid (.nestingTooDeep window.cur)) window) long

variable {start : Window} {count : Nat} {ending short long : Ending α}
  {following following' : α → Window → Ending β}

theorem agrees_done (value : α) (start : Window) : Agrees start (.done value start) (.done value start) :=
  .same (show Reaches start 0 _ from .done value)

theorem agrees_failed (failure : ParseFailure) (start : Window) :
    Agrees start (.failed failure start : Ending α) (.failed failure start) :=
  .same (show Reaches start 0 _ from .failed failure)

/-- If the stack has run out at the start, nothing is asked of the greater one. -/
theorem agrees_overflow (h : long.Reaches start count) : Agrees start (.overflow start) long :=
  .overflow (show start.cur = (start.moved 0).cur from rfl) (Nat.zero_le count) h

/-- What is reached from a later window is reached from an earlier one. -/
theorem Reaches.later {further : Nat} (h : ending.Reaches (start.moved count) further) :
    ending.Reaches start (count + further) := by
  cases h with
  | done value =>
    rw [← Window.moved_add]
    exact .done value
  | failed failure =>
    rw [← Window.moved_add]
    exact .failed failure
  | overflow hcur =>
    rw [← Window.moved_add] at hcur
    exact .overflow hcur

theorem Agrees.later (h : Agrees (start.moved count) short long) : Agrees start short long := by
  cases h with
  | same h => exact .same h.later
  | overflow hcur hle h =>
    rw [← Window.moved_add] at hcur
    exact .overflow hcur (Nat.add_le_add_left hle count) h.later

theorem Agrees.exists_reaches (h : Agrees start short long) : ∃ count, long.Reaches start count := by
  cases h with
  | same h | overflow _ _ h => exact ⟨_, h⟩

/-- Two parts one after the other agree if the second one does from wherever the first one has ended. -/
theorem Agrees.andThen (h : Agrees start short long)
    (hfollowing : ∀ value after, short = .done value after →
      Agrees after (following value after) (following' value after))
    (hreaches : ∀ value after, long = .done value after →
      ∃ count, (following' value after).Reaches after count) :
    Agrees start (short.andThen following) (long.andThen following') := by
  cases h with
  | same h =>
    cases h with
    | done value => exact (hfollowing value _ rfl).later
    | failed failure => exact .same (.failed failure)
    | overflow hcur => exact .same (.overflow hcur)
  | overflow hcur hle h =>
    -- The stack has run out in the first part. The greater one may go on to the second part and on from there.
    cases h with
    | done value =>
      obtain ⟨further, h⟩ := hreaches value _ rfl
      exact .overflow hcur (Nat.le_add_right_of_le hle) h.later
    | failed failure => exact .overflow hcur hle (.failed failure)
    | overflow hcur' => exact .overflow hcur hle (.overflow hcur')

/-- Endings agree as well if they need room, which the greater stack has whenever the other one has. -/
theorem Agrees.ite {fits fits' : Bool} (h : Agrees start short long) (hfits : fits = true → fits' = true) :
    Agrees start (if fits then short else .overflow start) (if fits' then long else .overflow start) := by
  cases fits with
  | true =>
    rw [hfits rfl]
    exact h
  | false =>
    cases fits' with
    | true =>
      obtain ⟨count, hreaches⟩ := h.exists_reaches
      exact agrees_overflow hreaches
    | false => exact agrees_failed _ start

theorem settled_andThen {depth : Operation → Nat} {first : Stack → Ending α}
    {following : Stack → α → Window → Ending β} (h : Stack.Settled depth first)
    (hfollowing : ∀ value after, first .unlimited = .done value after →
      Stack.Settled depth fun stack => following stack value after) :
    Stack.Settled depth fun stack => (first stack).andThen (following stack) := by
  obtain ⟨frames, h⟩ := h
  cases hended : first .unlimited with
  | done value after =>
    obtain ⟨others, hfollowing⟩ := hfollowing value after hended
    refine ⟨frames + others, fun more hmore => ?_⟩
    simp only [h more (by omega), hended]
    exact hfollowing more (by omega)
  | failed failure after =>
    refine ⟨frames, fun more hmore => ?_⟩
    simp only [h more hmore, hended]
    rfl

end Ending

/-- A way to work on a window, within a stack. -/
structure Method (α : Type) where
  /-- How the method ends in a stack on a window. -/
  runWithin : Stack → Window → Ending α
  /-- A greater stack makes no difference, unless the other one has run out. -/
  agrees : ∀ {less more : Stack}, less ≤ more → ∀ window,
    (runWithin less window).Agrees window (runWithin more window)
  /-- From some number of frames on the stack does not run out. -/
  settled : ∀ depth window, Stack.Settled depth fun stack => runWithin stack window

namespace Method

variable {α β : Type}

/-- How a method ends on a window, where the stack has no end. -/
def run (method : Method α) (window : Window) : Ending α := method.runWithin .unlimited window

theorem exists_reaches (method : Method α) (stack : Stack) (window : Window) :
    ∃ count, (method.runWithin stack window).Reaches window count :=
  (method.agrees (Stack.le_refl stack) window).exists_reaches

/-- Leave the window as it is. -/
def give (value : α) : Method α where
  runWithin _ window := .done value window
  agrees _ window := Ending.agrees_done value window
  settled depth _ := Stack.settled_const depth _

/-- Fail and leave the window as it is. -/
def fail (failure : ParseFailure) : Method α where
  runWithin _ window := .failed failure window
  agrees _ window := Ending.agrees_failed failure window
  settled depth _ := Stack.settled_const depth _

/-- Do one thing and then, unless that failed, what follows it. -/
def andThen (first : Method α) (following : α → Method β) : Method β where
  runWithin stack window :=
    (first.runWithin stack window).andThen fun value after => (following value).runWithin stack after
  agrees hle window := (first.agrees hle window).andThen
    (fun value after _ => (following value).agrees hle after)
    fun value after _ => (following value).exists_reaches _ after
  settled depth window := Ending.settled_andThen (first.settled depth window)
    fun value after _ => (following value).settled depth after

instance : Monad Method where
  pure := give
  bind := andThen

/-- A method that is called takes a frame of the stack. -/
def call (method : Method α) : Method α where
  runWithin stack window := if stack.holds 1 then method.runWithin stack.enter window else .overflow window
  agrees hle window := (method.agrees (Stack.enter_le_enter hle) window).ite (hle.1 1)
  settled depth window := (Stack.settled_holds depth 1).ite (method.settled depth window).enter
    (Stack.settled_const depth _)

/-- Make room for an operation. -/
def room (operation : Operation) : Method Unit where
  runWithin stack window := if stack.fits operation then .done () window else .overflow window
  agrees hle window := (Ending.agrees_done () window).ite (Stack.fits_of_le hle)
  settled depth _ := (Stack.settled_fits depth operation).ite (Stack.settled_const depth _)
    (Stack.settled_const depth _)

/-- The current token. -/
def current : Method Token where
  runWithin _ window := .done window.cur window
  agrees _ window := Ending.agrees_done window.cur window
  settled depth _ := Stack.settled_const depth _

/-- The next token. -/
def upcoming : Method Token where
  runWithin _ window := .done window.peek window
  agrees _ window := Ending.agrees_done window.peek window
  settled depth _ := Stack.settled_const depth _

/-- The window after another token has been pulled from the lexer. The next token has become the current
one before that. -/
def pulled (window : Window) : Option Token × Cursor → Ending Unit
  | (some next, lexer) => .done () { lexer, cur := window.peek, peek := next }
  | (none, lexer) => .overflow { lexer, cur := window.peek, peek := window.peek }

theorem reaches_pulled {window : Window} {next : Option Token × Cursor}
    (h : next.1 = none ∨ next = (some window.lexer.nextToken.1, window.lexer.nextToken.2)) :
    (pulled window next).Reaches window 1 := by
  rcases next with ⟨_ | token, lexer⟩
  · exact .overflow rfl
  · rw [h.resolve_left (Option.some_ne_none token)]
    exact .done ()

/-- Go on to the next token. -/
def advance : Method Unit := call {
  runWithin stack window := pulled window (window.lexer.nextTokenWithin stack)
  agrees {less more} hle window := by
    obtain ⟨hshort, hlong⟩ := Cursor.agree_nextTokenWithin hle window.lexer
    rcases hshort with hnone | hsame
    · generalize window.lexer.nextTokenWithin less = next at hnone
      obtain ⟨_, lexer⟩ := next
      obtain rfl : _ = none := hnone
      have hcur : window.peek = (window.moved 1).cur := rfl
      exact .overflow hcur (Nat.le_refl 1) (reaches_pulled hlong)
    · rw [hsame]
      exact .same (reaches_pulled hlong)
  settled depth window := by
    obtain ⟨frames, h⟩ := Cursor.settled_nextTokenWithin depth window.lexer
    exact ⟨frames, fun more hmore => congrArg (pulled window) (h more hmore)⟩ }

/-- Fail with a syntax error. -/
def reject (error : SyntaxError) : Method α := do
  room .report
  fail (.invalid error)

/-- Go on to the next token if it has the given kind. -/
def expect (kind : TokenKind) : Method Unit := call do
  room .test
  let next ← upcoming
  if next.kind = kind then advance else reject (.unexpectedToken kind next)

/-- Go on to the next token if it has the given kind, and stay otherwise. -/
def skip (kind : TokenKind) : Method Unit := call do
  room .test
  let next ← upcoming
  if next.kind = kind then advance else give ()

@[simp]
theorem run_give (value : α) (window : Window) : (give value).run window = .done value window := rfl

@[simp]
theorem run_fail (failure : ParseFailure) (window : Window) :
    (fail failure : Method α).run window = .failed failure window := rfl

@[simp]
theorem run_reject (error : SyntaxError) (window : Window) :
    (reject error : Method α).run window = .failed (.invalid error) window := rfl

@[simp]
theorem run_current (window : Window) : current.run window = .done window.cur window := rfl

@[simp]
theorem run_upcoming (window : Window) : upcoming.run window = .done window.peek window := rfl

@[simp]
theorem run_call (method : Method α) (window : Window) : (call method).run window = method.run window := rfl

@[simp]
theorem run_room (operation : Operation) (window : Window) : (room operation).run window = .done () window :=
  rfl

@[simp]
theorem run_advance (window : Window) : advance.run window = .done () window.nextToken :=
  congrArg (pulled window) (Cursor.nextTokenWithin_unlimited window.lexer)

/-- A method that goes on from the value of another one goes on from where that one ended. -/
theorem run_bind (first : Method α) (following : α → Method β) (window : Window) :
    (first >>= following).run window =
      match first.run window with
      | .done value after => (following value).run after
      | .failed failure after => .failed failure after := by
  change (first.run window).andThen _ = _
  cases first.run window <;> rfl

theorem run_bind_eq_done {first : Method α} {following : α → Method β} {value : β} {window after : Window} :
    (first >>= following).run window = .done value after ↔
      ∃ middle between, first.run window = .done middle between ∧
        (following middle).run between = .done value after := by
  rw [run_bind]
  cases first.run window <;> simp [and_assoc]

/-- A method that gives a value in a stack gives it in every greater one as well. -/
theorem runWithin_eq_done_of_le {method : Method α} {less more : Stack} {window after : Window} {value : α}
    (hle : less ≤ more) (h : method.runWithin less window = .done value after) :
    method.runWithin more window = .done value after := by
  have hagrees := method.agrees hle window
  rw [h] at hagrees
  generalize method.runWithin more window = long at hagrees ⊢
  cases hagrees with
  | same => rfl

theorem run_eq_done {method : Method α} {stack : Stack} {window after : Window} {value : α}
    (h : method.runWithin stack window = .done value after) : method.run window = .done value after :=
  runWithin_eq_done_of_le (Stack.le_unlimited stack) h

/-- No method that gives a value makes more to be read. -/
theorem within_of_run {method : Method α} {window after : Window} {value : α}
    (h : method.run window = .done value after) : after.Within window := by
  obtain ⟨count, hreaches⟩ := method.exists_reaches .unlimited window
  change (method.run window).Reaches window count at hreaches
  rw [h] at hreaches
  cases hreaches with
  | done => exact window.within_moved count

/-- A failed expectation leaves the window as it was. -/
theorem run_expect (kind : TokenKind) (window : Window) :
    (expect kind).run window =
      if window.peek.kind = kind then .done () window.nextToken
      else .failed (.invalid (.unexpectedToken kind window.peek)) window := by
  simp only [expect, run_call, run_bind, run_room, run_upcoming]
  split
  · exact run_advance window
  · rfl

end Method

end Monkey
