import Mathlib.Order.Monotone.Basic
import Monkey.Proofs.Phrase

/-!
# Calls to a parser keep its window on the tokens

A parser is called in any order and goes on from wherever a call has left it, whether the call has failed
or not. Its window always stands at an index of the text, which never goes down. A call that reads a
construct from its first token on and succeeds ends on the last token of the construct, or at the end of
input if this has closed a block of the construct.
-/

namespace Monkey.Parser

variable {source : String} {k k' levels : Nat} {before after : Window} {call : Call}
  {construct : Construct} {value : Value} {ending : Ending Value}

/-- The tokens of a text from one index to another one, with both of these. -/
def span (source : String) (k k' : Nat) : List Token := (ahead source k).take (k' + 1 - k)

/-- A construct takes the tokens of a text from one index to another one, and its blocks are closed in
them. If the text has ended at the second index, a block is open instead. A whole program ends there in
any case. -/
structure Construct.Takes (source : String) (construct : Construct) (k k' : Nat) (value : Value) :
    Prop where
  phrase : Phrase construct (ahead source k) value (ahead source (k' + 1))
  semicolon : construct.isStatement = true →
    (tokenAt source k').kind = .semicolon ∨ (tokenAt source (k' + 1)).kind ≠ .semicolon
  closed : (tokenAt source k').kind ≠ .eof →
    openingBraces (span source k k') = closingBraces (span source k k')
  opened : construct ≠ .program → (tokenAt source k').kind = .eof →
    closingBraces (span source k k') < openingBraces (span source k k')

/-- What a call does to a window at an index, which ends at another index. -/
structure Call.Keeps (source : String) (call : Call) (before : Window) (k : Nat)
    (ending : Ending Value) (k' : Nat) : Prop where
  stays : ∀ kind failure after, call = .expectPeek kind → ending = .failed failure after →
    after = before ∧ k' = k
  ended : ∀ value after, call = .parse .program → ending = .done value after →
    after.cur = .endOfInput
  takes : ∀ construct value after, call = .parse construct → construct.StartsOn before.cur.kind →
    ending = .done value after → construct.Takes source k k' value

theorem unended_ahead (source : String) (k : Nat) : (ahead source k).Unended := fun t ht =>
  (spelled_of_mem_tokens t (List.mem_of_mem_drop ht)).kind_ne_eof

/-- Nothing is ahead of an index exactly if the end of input is there. -/
theorem ahead_eq_nil_iff : ahead source k = [] ↔ (tokenAt source k).kind = .eof := by
  rw [← cur_ahead]
  constructor
  · intro hnil
    rw [hnil]
    rfl
  · exact (unended_ahead source k).eq_nil

/-- What is ahead of an index is a span and what is ahead of its end. -/
theorem span_append (hle : k ≤ k') : span source k k' ++ ahead source (k' + 1) = ahead source k := by
  have hdrop : ahead source (k' + 1) = (ahead source k).drop (k' + 1 - k) := by
    rw [ahead, ahead, List.drop_drop]
    congr 1
    omega
  rw [hdrop, span, List.take_append_drop]

theorem surplus_span (hle : k ≤ k') :
    surplus (ahead source k) = surplus (span source k k') + surplus (ahead source (k' + 1)) := by
  rw [← surplus_append, span_append hle]

/-- A program that is read ends at the end of input. -/
theorem cur_of_run_program {stream rest : TokenStream} (hstream : stream.Unended)
    (h : (Construct.program.reading .standard levels).run stream = .done value rest) :
    rest.cur = .endOfInput := by
  obtain ⟨node, hrun, -⟩ := run_value_eq_done.mp h
  obtain ⟨statements, hturns, -⟩ := Grammar.run_program_eq_done.mp hrun
  have hrest : rest.Unended := hstream.of_suffix (Reading.suffix_of_run h)
  rw [hrest.eq_nil (by simpa using hturns.stops)]
  rfl

/-- A construct that is read from its first token on takes the tokens up to the current one. -/
theorem takes_of_run (hle : k ≤ k') (hstart : construct.StartsOn (tokenAt source k).kind)
    (h : (construct.reading .standard levels).run (ahead source k) = .done value (ahead source k')) :
    construct.Takes source k k' value := by
  have hunended := unended_ahead source k
  rw [← cur_ahead] at hstart
  have hsurplus : surplus (ahead source k) = surplus (span source k k') + surplus (ahead source (k' + 1)) :=
    surplus_span hle
  refine ⟨?_, fun hstatement => ?_, fun hgo => ?_, fun hprogram heof => ?_⟩
  · rw [← advance_ahead]
    exact phrase_of_run hunended hstart h
  · rw [← cur_ahead, ← peek_ahead]
    exact semicolon_of_run hstatement h
  · have hprogram : construct ≠ .program := by
      rintro rfl
      have hcur := cur_of_run_program hunended h
      rw [cur_ahead] at hcur
      exact hgo (by rw [hcur]; rfl)
    have hclosed := (closes_of_run hunended hstart hprogram h).closed (mt ahead_eq_nil_iff.mp hgo)
    rw [advance_ahead] at hclosed
    simp only [surplus] at hsurplus hclosed
    omega
  · have hnil := ahead_eq_nil_iff.mpr heof
    have hopened := (closes_of_run hunended hstart hprogram h).opened hnil
    have hnext : ahead source (k' + 1) = [] := by rw [← advance_ahead, hnil]; rfl
    rw [hnext] at hsurplus
    simp only [surplus, openingBraces_nil, closingBraces_nil] at hsurplus hopened
    omega

/-- A failed expectation leaves the window as it was. -/
theorem window_of_expectPeek {rules : Rules} {kind : TokenKind} {failure : ParseFailure}
    (h : ((Call.expectPeek kind).method rules levels).run before = .failed failure after) :
    after = before := by
  rw [Call.method, Method.run_bind, Method.run_expect] at h
  by_cases hnext : before.peek.kind = kind
  · rw [if_pos hnext] at h
    cases h
  · rw [if_neg hnext] at h
    cases h
    rfl

/-- A call takes a window from an index to another one that is not lower. -/
theorem exists_keeps (levels : Nat) (call : Call) (hat : before.At source k) :
    ∃ k', k ≤ k' ∧ ((call.method .standard levels).run before).window.At source k' ∧
      call.Keeps source before k ((call.method .standard levels).run before) k' := by
  have halike := simulates_call .standard levels call source k before hat
  cases hend : (call.method .standard levels).run before with
  | done value after =>
    rw [hend] at halike
    obtain ⟨k', hle, hafter, hrun⟩ := halike.of_done
    refine ⟨k', hle, hafter, ?_, ?_, ?_⟩
    · intro kind failure last _ hfailed
      cases hfailed
    · rintro _ _ rfl ⟨⟩
      rw [hafter.cur_eq, ← cur_ahead]
      exact cur_of_run_program (unended_ahead source k) hrun
    · rintro construct _ _ rfl hstart ⟨⟩
      rw [hat.cur_eq] at hstart
      exact takes_of_run hle hstart hrun
  | failed failure after =>
    rw [hend] at halike
    obtain ⟨k', hle, hafter⟩ := halike.exists_at
    -- A failed call may have gone on, except for a failed expectation.
    by_cases hexpect : ∃ kind, call = .expectPeek kind
    · obtain ⟨kind, rfl⟩ := hexpect
      obtain rfl := window_of_expectPeek hend
      refine ⟨k, Nat.le_refl k, hat, ?_, ?_, ?_⟩
      · rintro _ _ _ _ ⟨⟩
        exact ⟨rfl, rfl⟩
      · intro _ _ _ hdone
        cases hdone
      · intro _ _ _ _ _ hdone
        cases hdone
    · refine ⟨k', hle, hafter, ?_, ?_, ?_⟩
      · intro kind _ _ hcall
        exact absurd ⟨kind, hcall⟩ hexpect
      · intro _ _ _ hdone
        cases hdone
      · intro _ _ _ _ _ hdone
        cases hdone

/-- Calls one after the other go along indices of a text. -/
structure Along (source : String) (levels : Nat) (start : Window) (calls : List Call)
    (index : Nat → Nat) : Prop where
  mono : Monotone index
  stands : ∀ i, (windowAfter .standard levels start (calls.take i)).At source (index i)
  keeps : ∀ (i : Nat) (hi : i < calls.length),
    let before := windowAfter .standard levels start (calls.take i)
    calls[i].Keeps source before (index i) ((calls[i].method .standard levels).run before)
      (index (i + 1))

/-- From a window at an index, calls go along indices that start there. -/
theorem exists_along (levels : Nat) (calls : List Call) (hat : before.At source k) :
    ∃ index : Nat → Nat, index 0 = k ∧ Along source levels before calls index := by
  induction calls generalizing before k with
  | nil =>
    exact ⟨fun _ => k, rfl, monotone_const, fun i => by rw [List.take_nil]; exact hat,
      fun i hi => absurd hi (Nat.not_lt_zero i)⟩
  | cons call calls ih =>
    obtain ⟨k', hle, hafter, hkeeps⟩ := exists_keeps levels call hat
    obtain ⟨index, rfl, hmono, hstands, hall⟩ := ih hafter
    refine ⟨fun i => i.casesOn k index, rfl, monotone_nat_of_le_succ fun i => ?_, fun i => ?_,
      fun i hi => ?_⟩
    · cases i with
      | zero => exact hle
      | succ i => exact hmono (Nat.le_succ i)
    · cases i with
      | zero => exact hat
      | succ i => exact hstands i
    · cases i with
      | zero => exact hkeeps
      | succ i => exact hall i (Nat.lt_of_succ_lt_succ hi)

/-- Whatever calls are made to a parser, its window stands at an index of the text, which never goes
down. A failed expectation leaves the index, a program that is read ends at the end of input, and a
construct that is read from its first token on takes the tokens from the one index to the other one. -/
theorem calls_keep_window (source : String) (levels : Nat) (calls : List Call) :
    ∃ index : Nat → Nat, index 0 = 0 ∧ Along source levels (.ofSource source) calls index :=
  exists_along levels calls (Window.at_ofSource source)

/-- A failed statement is gone on from, and the end of input closes a block. -/
example :
    let window := windowAfter .standard 3 (.ofSource "let if (a) \x7b b")
      [.parse .statement, .nextToken, .parse .ifExpression]
    window.cur = .endOfInput ∧ window.peek = .endOfInput := by
  decide +kernel

end Monkey.Parser
