import Monkey.Parser.Method

/-!
# Loops of methods

A loop makes one turn after the other, each from the state that the last one has given, until a turn gives
a value. Every turn but the last one has to make less to be read than there was. Two loops are those over
the members of a list in parentheses and over things one after the other up to a closing token: a turn of
either starts on a token other than the end of input and goes past it.
-/

namespace Monkey

namespace Method

variable {σ α : Type} {turn : σ → Method (σ ⊕ α)}

/-- A turn after which a loop goes on has read something. -/
def Progresses (turn : σ → Method (σ ⊕ α)) : Prop :=
  ∀ state window next after, (turn state).run window = .done (.inl next) after →
    after.weight < window.weight

/-- Turns one after the other, from a state on. -/
def turns (turn : σ → Method (σ ⊕ α)) (h : Progresses turn) (stack : Stack) (state : σ)
    (window : Window) : Ending α :=
  match _h : (turn state).runWithin stack window with
  | .done (.inl next) after => turns turn h stack next after
  | .done (.inr value) after => .done value after
  | .failed failure after => .failed failure after
termination_by window.weight
decreasing_by exact h _ _ _ _ (run_eq_done _h)

/-- What follows a turn is another one, or nothing. -/
def turnsAfter (turn : σ → Method (σ ⊕ α)) (h : Progresses turn) (stack : Stack) :
    σ ⊕ α → Window → Ending α
  | .inl next, after => turns turn h stack next after
  | .inr value, after => .done value after

theorem turns_eq (h : Progresses turn) (stack : Stack) (state : σ) (window : Window) :
    turns turn h stack state window =
      ((turn state).runWithin stack window).andThen (turnsAfter turn h stack) := by
  rw [turns]
  split
  all_goals
    rename_i hturn
    rw [hturn]
    rfl

/-- Turns agree in a stack and in a greater one, by induction on what is to be read: a turn agrees, and
after it there is less. -/
theorem agrees_turns (h : Progresses turn) {less more : Stack} (hle : less ≤ more) (state : σ)
    (window : Window) :
    (turns turn h less state window).Agrees window (turns turn h more state window) := by
  induction hweight : window.weight using Nat.strongRecOn generalizing less more state window with
  | ind weight ih =>
    have hafter {less more : Stack} (hle : less ≤ more) (next : σ ⊕ α) (after : Window)
        (hturn : (turn state).run window = .done next after) :
        (turnsAfter turn h less next after).Agrees after (turnsAfter turn h more next after) := by
      cases next with
      | inl next => exact ih _ (hweight ▸ h state window next after hturn) hle next after rfl
      | inr value => exact Ending.agrees_done value after
    rw [turns_eq, turns_eq]
    exact ((turn state).agrees hle window).andThen
      (fun next after hturn => hafter hle next after (run_eq_done hturn))
      fun next after hturn => (hafter (Stack.le_refl more) next after (run_eq_done hturn)).exists_reaches

theorem settled_turns (h : Progresses turn) (depth : Operation → Nat) (state : σ) (window : Window) :
    Stack.Settled depth fun stack => turns turn h stack state window := by
  induction hweight : window.weight using Nat.strongRecOn generalizing state window with
  | ind weight ih =>
    simp only [turns_eq]
    refine Ending.settled_andThen ((turn state).settled depth window) fun next after hturn => ?_
    cases next with
    | inl next => exact ih _ (hweight ▸ h state window next after hturn) next after rfl
    | inr value => exact Stack.settled_const depth _

/-- One turn after the other. -/
def loop (turn : σ → Method (σ ⊕ α)) (h : Progresses turn) (state : σ) : Method α where
  runWithin stack window := turns turn h stack state window
  agrees hle window := agrees_turns h hle state window
  settled depth window := settled_turns h depth state window

theorem run_loop (h : Progresses turn) (state : σ) :
    (loop turn h state).run = (turn state >>= fun next => next.elim (loop turn h) give).run := by
  funext window
  rw [run_bind]
  refine (turns_eq h .unlimited state window).trans ?_
  change ((turn state).run window).andThen _ = _
  cases (turn state).run window with
  | done next after => cases next <;> rfl
  | failed failure after => rfl

end Method

namespace Parser

open Method

variable {α : Type}

/-- A turn over the members of a list: a comma is followed by a member, and anything else ends the list.
The last member that was read comes first. -/
def membersTurn (item : Method α) (read : List α) : Method (List α ⊕ List α) := do
  room .test
  let next ← upcoming
  if next.kind = .comma then
    advance
    let member ← item
    room .list
    give (.inl (member :: read))
  else give (.inr read.reverse)

theorem run_membersTurn (item : Method α) (read : List α) (window : Window) :
    (membersTurn item read).run window =
      if window.peek.kind = .comma then
        (item >>= fun member => give (.inl (member :: read))).run window.nextToken
      else .done (.inr read.reverse) window := by
  simp only [membersTurn, run_bind, run_room, run_upcoming]
  split
  · simp only [run_bind, run_advance, run_room]
  · rfl

theorem progresses_membersTurn (item : Method α) : Progresses (membersTurn item) := by
  intro read window next after h
  rw [run_membersTurn] at h
  split at h
  · rename_i hcomma
    obtain ⟨member, mid, hitem, hgive⟩ := run_bind_eq_done.mp h
    obtain ⟨-, rfl⟩ := Ending.done.inj hgive
    exact Window.weight_lt_of_peek (by simp [hcomma]) (within_of_run hitem)
  · cases h

/-- More members of a list after those read so far, the last of which comes first. -/
def membersAfter (item : Method α) (read : List α) : Method (List α) :=
  loop (membersTurn item) (progresses_membersTurn item) read

/-- A comma is followed by a member, and anything else ends the list. -/
theorem run_membersAfter (item : Method α) (read : List α) (window : Window) :
    (membersAfter item read).run window =
      if window.peek.kind = .comma then
        (item >>= fun member => membersAfter item (member :: read)).run window.nextToken
      else .done read.reverse window := by
  rw [membersAfter, run_loop, run_bind, run_membersTurn]
  by_cases hcomma : window.peek.kind = .comma
  · rw [if_pos hcomma, if_pos hcomma, run_bind, run_bind]
    cases item.run window.nextToken <;> rfl
  · rw [if_neg hcomma, if_neg hcomma]
    rfl

/-- The members of a list in parentheses, from the opening one to the closing one. A member is read
from the token before it. -/
def parenthesized (item : Method α) : Method (List α) := do
  room .test
  if (← upcoming).kind = .rparen then
    advance
    give []
  else
    let first ← item
    room .list
    let all ← membersAfter item [first]
    expect .rparen
    give all

/-- A turn over things up to a token of the closing kind or the end of input. The last thing that was read
comes first. -/
def untilTurn (closer : TokenKind) (one : Method α) (read : List α) : Method (List α ⊕ List α) := do
  room .test
  let token ← current
  if token.kind = closer ∨ token.kind = .eof then give (.inr read.reverse)
  else
    let thing ← one
    room .list
    advance
    give (.inl (thing :: read))

theorem run_untilTurn (closer : TokenKind) (one : Method α) (read : List α) (window : Window) :
    (untilTurn closer one read).run window =
      if window.cur.kind = closer ∨ window.cur.kind = .eof then .done (.inr read.reverse) window
      else
        (do
          let thing ← one
          advance
          give (.inl (thing :: read)) : Method (List α ⊕ List α)).run window := by
  simp only [untilTurn, run_bind, run_room, run_current]
  split
  · rfl
  · simp only [run_bind, run_room]

theorem progresses_untilTurn (closer : TokenKind) (one : Method α) : Progresses (untilTurn closer one) := by
  intro read window next after h
  rw [run_untilTurn] at h
  split at h
  · cases h
  · rename_i hopen
    obtain ⟨thing, mid, hone, hrest⟩ := run_bind_eq_done.mp h
    rw [run_bind, run_advance] at hrest
    obtain ⟨-, rfl⟩ := Ending.done.inj hrest
    exact Window.weight_lt_of_cur (fun heof => hopen (.inr heof)) (within_of_run hone)

/-- Things up to a token of the closing kind or the end of input, after those read so far, the last of
which comes first. -/
def untilAfter (closer : TokenKind) (one : Method α) (read : List α) : Method (List α) :=
  loop (untilTurn closer one) (progresses_untilTurn closer one) read

/-- Things up to a token of the closing kind or the end of input. -/
def allUntil (closer : TokenKind) (one : Method α) : Method (List α) := untilAfter closer one []

/-- Each turn reads one thing and goes on to the token after it. -/
theorem run_untilAfter (closer : TokenKind) (one : Method α) (read : List α) (window : Window) :
    (untilAfter closer one read).run window =
      if window.cur.kind = closer ∨ window.cur.kind = .eof then .done read.reverse window
      else
        (do
          let thing ← one
          advance
          untilAfter closer one (thing :: read) : Method (List α)).run window := by
  rw [untilAfter, run_loop, run_bind, run_untilTurn]
  by_cases hend : window.cur.kind = closer ∨ window.cur.kind = .eof
  · rw [if_pos hend, if_pos hend]
    rfl
  · rw [if_neg hend, if_neg hend]
    simp only [run_bind, run_advance]
    cases one.run window <;> rfl

end Parser

end Monkey
