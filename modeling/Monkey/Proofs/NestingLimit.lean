import Monkey.Node.Equality
import Monkey.Proofs.Interruption
import Monkey.Proofs.Stop
import Monkey.Proofs.Termination

/-!
# The limit on nesting

Where no level of nesting is left, an expression is not read but fails, and what it is a part of ends with
it. So a limit is exceeded exactly if the run without a limit reads an expression inside of as many others
as there are levels, and it is reported at the first token of such an expression. Otherwise it makes no
difference.

The limit counts the expressions that are read one inside of the other, wherever in a construct they are. A
stack, which can end anywhere else as well, is not what is counted here.
-/

namespace Monkey

/-- A reading of a stream is at a place at some point. As it goes on by single tokens, these are the places
from where it starts to where it ends. -/
def Reading.Visits {α : Type} (reading : Reading α) (stream place : TokenStream) : Prop :=
  place <:+ stream ∧ (reading.run stream).rest <:+ place

namespace Grammar

open Reading

/-! ## Levels of nesting -/

/-- An expression of the run without a limit on nesting, inside of a number of others. -/
inductive Inside (stream : TokenStream) : Nat → Activation → Prop
  | outermost {activation : Activation} :
      ReadsAt program unlimited stream activation.precedence activation.stream →
      Inside stream 0 activation
  | inner {depth : Nat} {caller callee : Activation} :
      Inside stream depth caller → Calls caller callee → Inside stream (depth + 1) callee

/-- A limit makes a difference to an expression. -/
def Activation.Exceeds (activation : Activation) (levels : Nat) : Prop :=
  (expression .standard levels activation.precedence).run activation.stream ≠ activation.outcome

variable {levels depth : Nat} {caller callee activation : Activation} {rest : TokenStream}
  {failure : ParseFailure}

/-- A limit makes no difference to an expression other than that nesting is too deep. -/
theorem nestedRefines_unlimited (levels : Nat) :
    NestedRefines ParseFailure.IsNestingTooDeep (expression .standard levels) unlimited := by
  intro precedence stream
  rw [run_unlimited_eq_expression (Nat.lt_of_lt_of_le (Nat.lt_succ_self _) (Nat.le_max_right levels _))]
  exact nestedRefines_expression .standard (fun t => ⟨t, rfl⟩) (Nat.le_max_left levels _) precedence stream

/-- Without a level nothing is read. -/
theorem exceeds_zero (activation : Activation) : activation.Exceeds 0 := fun hsame =>
  unlimited_fails activation.precedence activation.stream _ _ hsame.symm ⟨_, rfl⟩

/-- Where nesting is too deep, a limit makes a difference. -/
theorem exceeds_of_tooDeep
    (h : (expression .standard levels activation.precedence).run activation.stream = .failed failure rest)
    (hdeep : failure.IsNestingTooDeep) : activation.Exceeds levels := fun hsame =>
  unlimited_fails activation.precedence activation.stream _ _ (hsame.symm.trans h) hdeep

/-- A limit that makes a difference to an expression makes one to those around it, with a level more for
each. -/
theorem Activation.Exceeds.of_calls (h : callee.Exceeds levels) (hcalls : Calls caller callee) :
    caller.Exceeds (levels + 1) := by
  have hstops : StopsWith _ (expression .standard levels) unlimited
      (expressionFrom .standard · caller.precedence) caller.stream :=
    .expressionFrom (nestedRefines_unlimited levels) _
  cases hstops with
  | unaffected _ hreads => exact absurd (hreads _ _ hcalls) h
  | stopped _ hdeep _ hrun => exact exceeds_of_tooDeep hrun hdeep

/-- A limit that makes a difference to an expression makes one to an expression inside of it, at which no
level is left. There it is reported. -/
theorem exists_inside_of_tooDeep (hinside : Inside stream depth activation)
    (h : (expression .standard levels activation.precedence).run activation.stream = .failed failure rest)
    (hdeep : failure.IsNestingTooDeep) :
    ∃ inner, Inside stream (depth + levels) inner ∧ rest = inner.stream ∧
      failure = .invalid (.nestingTooDeep inner.stream.cur) := by
  induction levels generalizing depth activation with
  | zero =>
    obtain ⟨rfl, rfl⟩ := Outcome.failed.inj h
    exact ⟨activation, hinside, rfl, rfl⟩
  | succ levels ih =>
    have hstops : StopsWith _ (expression .standard levels) unlimited
        (expressionFrom .standard · activation.precedence) activation.stream :=
      .expressionFrom (nestedRefines_unlimited levels) _
    cases hstops with
    | unaffected hrun _ =>
      have hsame : (expression .standard (levels + 1) activation.precedence).run activation.stream =
          activation.outcome := hrun.trans (run_unlimited _ _).symm
      exact absurd hsame (exceeds_of_tooDeep h hdeep)
    | @stopped precedence place _ _ hreads _ hfails hrun =>
      obtain ⟨rfl, rfl⟩ := Outcome.failed.inj (hrun.symm.trans h)
      have hinner : Inside stream (depth + 1) ⟨precedence, place⟩ := .inner hinside hreads
      have hdepth : depth + 1 + levels = depth + (levels + 1) := by omega
      exact hdepth ▸ ih hinner hfails

/-- If a limit makes a difference to an expression of a program, then with a level more for each expression
around it, nesting is too deep in the program. -/
theorem program_tooDeep (hinside : Inside stream depth activation) (h : activation.Exceeds levels) :
    ∃ failure rest, failure.IsNestingTooDeep ∧
      (program (expression .standard (depth + levels))).run stream = .failed failure rest := by
  induction hinside generalizing levels with
  | outermost hreads =>
    rw [Nat.zero_add]
    have hstops : StopsWith _ (expression .standard levels) unlimited program stream :=
      .program (nestedRefines_unlimited levels)
    cases hstops with
    | unaffected _ hunaffected => exact absurd (hunaffected _ _ hreads) h
    | stopped _ hdeep _ hrun => exact ⟨_, _, hdeep, hrun⟩
  | @inner depth _ _ _ hcalls ih =>
    have hdepth : depth + 1 + levels = depth + (levels + 1) := by omega
    exact hdepth ▸ ih (h.of_calls hcalls)

/-- A program leaves no more than any expression of it. -/
theorem Inside.leaves (h : Inside stream depth activation) :
    ((program unlimited).run stream).rest <:+ activation.outcome.rest := by
  induction h with
  | outermost hreads => exact (ReadsWithin.program List.suffix_rfl).leaves unlimited _ _ hreads
  | inner _ hcalls ih => exact ih.trans hcalls.leaves

theorem Inside.suffix (h : Inside stream depth activation) : activation.stream <:+ stream := by
  induction h with
  | outermost hreads => exact hreads.suffix (ReadsWithin.program List.suffix_rfl)
  | inner _ hcalls ih => exact hcalls.beyond.1.trans ih

theorem Inside.visits (h : Inside stream depth activation) :
    (program unlimited).Visits stream activation.stream :=
  ⟨h.suffix, h.leaves.trans (Reading.rest_run_suffix _ _)⟩

/-! ## Parsing -/

theorem exists_inside_of_parseTokens {t : Token}
    (h : parseTokens .standard levels stream = .error (.invalid (.nestingTooDeep t))) :
    ∃ activation, Inside stream levels activation ∧ activation.stream.cur = t := by
  obtain ⟨rest, hrun⟩ := run_of_parseTokens_eq_error h
  have hstops : StopsWith _ (expression .standard levels) unlimited program stream :=
    .program (nestedRefines_unlimited levels)
  cases hstops with
  | unaffected hsame _ => exact absurd ⟨t, rfl⟩ (program_unlimited_fails stream _ _ (hsame.symm.trans hrun))
  | @stopped precedence place _ _ hreads hdeep hfails hstop =>
    have houter : Inside stream 0 ⟨precedence, place⟩ := .outermost hreads
    obtain ⟨inner, hinner, -, hfound⟩ := exists_inside_of_tooDeep houter hfails hdeep
    obtain ⟨rfl, -⟩ := Outcome.failed.inj (hstop.symm.trans hrun)
    simp only [ParseFailure.invalid.injEq, SyntaxError.nestingTooDeep.injEq] at hfound
    exact ⟨inner, Nat.zero_add levels ▸ hinner, hfound.symm⟩

theorem exists_tooDeep_of_inside (h : Inside stream levels activation) :
    ∃ t, parseTokens .standard levels stream = .error (.invalid (.nestingTooDeep t)) := by
  obtain ⟨_, rest, ⟨t, rfl⟩, hrun⟩ := program_tooDeep h (exceeds_zero activation)
  exact ⟨t, by rw [parseTokens, ← Nat.add_zero levels, hrun]; rfl⟩

/-- A limit on nesting is exceeded exactly if the run without a limit reads an expression inside of as many
others as there are levels. It is then reported at the first token of such an expression, which is a token
of the stream or the end of input and is current at some point of the run without a limit. If it is not
exceeded, the result is the one without a limit, and the same for every greater limit. -/
theorem nesting_limit_transparent (levels : Nat) (stream : TokenStream) :
    ((∃ t, parseTokens .standard levels stream = .error (.invalid (.nestingTooDeep t))) ↔
      ∃ activation, Inside stream levels activation) ∧
    (∀ t, parseTokens .standard levels stream = .error (.invalid (.nestingTooDeep t)) →
      (t ∈ stream ∨ t = .endOfInput) ∧ ∃ activation, Inside stream levels activation ∧
        activation.stream.cur = t ∧ (program unlimited).Visits stream activation.stream) ∧
    ((∀ t, parseTokens .standard levels stream ≠ .error (.invalid (.nestingTooDeep t))) →
      parseTokens .standard levels stream = ((program unlimited).run stream).result ∧
        ∀ more, levels ≤ more → parseTokens .standard more stream = parseTokens .standard levels stream) := by
  refine ⟨⟨?_, ?_⟩, fun t h => ?_, fun h => ⟨?_, fun more hle => ?_⟩⟩
  · rintro ⟨t, h⟩
    obtain ⟨activation, hinside, -⟩ := exists_inside_of_parseTokens h
    exact ⟨activation, hinside⟩
  · rintro ⟨activation, hinside⟩
    exact exists_tooDeep_of_inside hinside
  · obtain ⟨activation, hinside, hcur⟩ := exists_inside_of_parseTokens h
    refine ⟨?_, activation, hinside, hcur, hinside.visits⟩
    rw [← hcur]
    cases hplace : activation.stream with
    | nil => exact .inr rfl
    | cons first rest => exact .inl (hinside.suffix.subset (by simp [hplace]))
  · rcases (nestedRefines_unlimited levels).program stream with ⟨failure, rest, ⟨t, rfl⟩, hrun⟩ | hsame
    · exact absurd (by rw [parseTokens, hrun]; rfl) (h t)
    · rw [parseTokens, hsame]
  · rcases parseTokens_of_le .standard hle stream with ⟨t, hdeep⟩ | hsame
    · exact absurd hdeep (h t)
    · exact hsame.symm

/-- One level is too few for a group in a group. -/
example : parseTokens .standard 1 (tokens "((a)) 1".toList) =
    .error (.invalid (.nestingTooDeep ⟨.lparen, "("⟩)) := by decide +kernel

end Grammar

end Monkey
