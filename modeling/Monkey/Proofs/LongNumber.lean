import Monkey.Proofs.Numeral
import Monkey.Proofs.Stop
import Monkey.Session

/-!
# Numbers of too many digits

A number of at most `digitLimit` digits is read with its decimal value, or it is reported as a syntax
error where the value is above the largest integer. A longer one is not converted, whatever its
value, and this is the only way in which a parse, an answer to a line or a session ends in anything
other than a program, a syntax error or an answer.
-/

namespace Monkey

namespace Grammar

open Text Reading

/-- A parse stops at a number of too many digits, and not because nesting is too deep there. -/
def StopsAtLongNumber (levels : Nat) (stream : TokenStream) : Prop :=
  ∃ failure rest, (program (expression .standard levels)).run stream = .failed failure rest ∧
    ¬ failure.IsNestingTooDeep ∧ rest.cur.kind = .int ∧
    Decimal.digitLimit < rest.cur.literal.length

variable {levels : Nat} {stream rest : TokenStream}

/-- A token that is left of spelled ones is spelled, unless it is the end of input. -/
theorem spelled_cur (h : ∀ t ∈ stream, t.Spelled) (hsuffix : rest <:+ stream)
    (hcur : rest.cur.kind ≠ .eof) : rest.cur.Spelled := by
  rw [TokenStream.eq_cons_of_cur rest hcur] at hsuffix
  exact h _ (hsuffix.subset List.mem_cons_self)

/-- A spelled number is not converted exactly if it has too many digits. -/
theorem unreadable_iff {t : Token} (h : t.Spelled) (hint : t.kind = .int) (error : NumeralError) :
    t.Unreadable error ↔
      Decimal.digitLimit < t.literal.length ∧ error = .tooLong t.literal.length := by
  rw [Token.Unreadable, Decimal.read_of_isNumber (h.int hint)]
  split
  · rename_i hle
    simp [Nat.not_lt.mpr hle]
  · rename_i hlong
    simp [hint, Nat.not_le.mp hlong, eq_comm]

/-- A parse of spelled tokens ends in a number that is not converted exactly where it stops at one
of too many digits. -/
theorem unreadable_iff_stopsAtLongNumber (h : ∀ t ∈ stream, t.Spelled) :
    (∃ error, parseTokens .standard levels stream = .error (.unreadable error)) ↔
      StopsAtLongNumber levels stream := by
  have hspelled {failure : ParseFailure} {rest : TokenStream}
      (hrun : (program (expression .standard levels)).run stream = .failed failure rest)
      (hint : rest.cur.kind = .int) : rest.cur.Spelled := by
    have hsuffix := (program (expression .standard levels)).rest_run_suffix stream
    rw [hrun] at hsuffix
    exact spelled_cur h hsuffix (by simp [hint])
  constructor
  · rintro ⟨error, hparse⟩
    obtain ⟨rest, hrun⟩ := run_of_parseTokens_eq_error hparse
    have hshallow : ¬ (ParseFailure.unreadable error).IsNestingTooDeep := by
      rintro ⟨t, ht⟩
      cases ht
    have hunreadable : rest.cur.Unreadable error :=
      ((explains_of_run_program hrun).resolve_left hshallow error).mp rfl
    have hlong := ((unreadable_iff (hspelled hrun hunreadable.1) hunreadable.1 error).mp hunreadable).1
    exact ⟨_, rest, hrun, hshallow, hunreadable.1, hlong⟩
  · rintro ⟨failure, rest, hrun, hshallow, hint, hlong⟩
    have hunreadable := (unreadable_iff (hspelled hrun hint) hint _).mpr ⟨hlong, rfl⟩
    have hfailure := ((explains_of_run_program hrun).resolve_left hshallow _).mpr hunreadable
    exact ⟨_, by rw [parseTokens, hrun, hfailure]; rfl⟩

/-- An expression that starts with a spelled number starts with its value, if it has one in range. -/
theorem run_operand_number (nested : Nested) (stream : TokenStream) (hint : stream.cur.kind = .int)
    (hspelled : stream.cur.Spelled) :
    (operand .standard nested).run stream =
      if stream.cur.literal.length ≤ Decimal.digitLimit then
        if Decimal.asciiValue stream.cur.literal ≤ 2 ^ 63 - 1 then
          .done (.integer stream.cur (Decimal.asciiValue stream.cur.literal)) stream
        else .failed (.invalid (.invalidInteger stream.cur)) stream
      else .failed (.unreadable (.tooLong stream.cur.literal.length)) stream := by
  have hrule : Rules.standard.prefixRule? stream.cur.kind = some .integer := by rw [hint]; rfl
  simp only [operand, run_bind_current, hrule]
  change integerLiteral.run stream = _
  simp only [integerLiteral, run_bind_current, Decimal.read_of_isNumber (hspelled.int hint)]
  by_cases hshort : stream.cur.literal.length ≤ Decimal.digitLimit
  · simp only [if_pos hshort, run_ite, run_reject, run_give]
    by_cases hrange : Decimal.asciiValue stream.cur.literal ≤ 2 ^ 63 - 1
    · rw [if_pos hrange, if_neg (by rw [maxInteger]; omega)]
    · rw [if_neg hrange, if_pos (by rw [maxInteger]; omega)]
  · simp only [if_neg hshort, run_fail]

end Grammar

open Grammar

/-- A line is answered exactly if its parse ends in a program or a syntax error. -/
theorem exists_evalLine_iff (line : String) (limits : Limits) :
    (∃ reply, evalLine line limits = .ok reply) ↔
      ¬ ∃ error, parse line limits.levels = .error (.unreadable error) := by
  unfold evalLine
  cases parse line limits.levels with
  | ok program =>
    simp only
    cases program.canonical? limits.depth <;> simp
  | error failure =>
    cases failure <;> simp

/-- A list of computations succeeds exactly if each of them does. -/
theorem exists_mapM_iff {α β ε : Type} (f : α → Except ε β) (items : List α) :
    (∃ results, items.mapM f = .ok results) ↔ ∀ a ∈ items, ∃ b, f a = .ok b := by
  induction items with
  | nil => simp [pure, Except.pure]
  | cons a rest ih =>
    rw [List.forall_mem_cons, ← ih, List.mapM_cons]
    cases f a with
    | error e => simp [bind, Except.bind]
    | ok b => cases rest.mapM f <;> simp [bind, Except.bind, pure, Except.pure]

/-- A session goes on to the end of its input exactly if each line is answered. -/
theorem exists_runSession_iff (prompt text : String) (limits : Limits) :
    (∃ reply, runSession prompt text limits = .ok reply) ↔
      ∀ line ∈ Text.lines text.toList, ∃ reply, evalLine (String.ofList line) limits = .ok reply := by
  rw [← exists_mapM_iff (fun line => evalLine (String.ofList line) limits)]
  change (∃ reply, (answers text.toList limits >>= _) = _) ↔
    ∃ results, answers text.toList limits = .ok results
  cases answers text.toList limits <;> simp [bind, Except.bind]

/-- Other failures than syntax errors come from numbers of too many digits that a parse stops at, and
from nothing else; lines and sessions end early on these only. A shorter number is read with its
value where that is in range, and is a syntax error otherwise. -/
theorem failures_escape_exactly_at_long_numbers (limits : Limits) (source prompt : String) :
    (((∃ node, parse source limits.levels = .ok node) ∨
        ∃ error, parse source limits.levels = .error (.invalid error)) ↔
      ¬ StopsAtLongNumber limits.levels (tokens source.toList)) ∧
    (∀ (nested : Nested) (stream : TokenStream), stream.cur.kind = .int → stream.cur.Spelled →
      (operand .standard nested).run stream =
        if stream.cur.literal.length ≤ Text.Decimal.digitLimit then
          if Text.Decimal.asciiValue stream.cur.literal ≤ 2 ^ 63 - 1 then
            .done (.integer stream.cur (Text.Decimal.asciiValue stream.cur.literal)) stream
          else .failed (.invalid (.invalidInteger stream.cur)) stream
        else .failed (.unreadable (.tooLong stream.cur.literal.length)) stream) ∧
    ((∃ reply, evalLine source limits = .ok reply) ↔
      ¬ StopsAtLongNumber limits.levels (tokens source.toList)) ∧
    ((∃ reply, runSession prompt source limits = .ok reply) ↔
      ∀ line ∈ Text.lines source.toList, ¬ StopsAtLongNumber limits.levels (tokens line)) := by
  have hline (line : String) : (∃ reply, evalLine line limits = .ok reply) ↔
      ¬ StopsAtLongNumber limits.levels (tokens line.toList) := by
    rw [exists_evalLine_iff, ← unreadable_iff_stopsAtLongNumber spelled_of_mem_tokens]
    rfl
  refine ⟨?_, run_operand_number, hline source, ?_⟩
  · rw [← unreadable_iff_stopsAtLongNumber spelled_of_mem_tokens]
    change _ ↔ ¬ ∃ error, parse source limits.levels = .error (.unreadable error)
    rcases parse source limits.levels with ⟨_ | _⟩ | node <;> simp
  · rw [exists_runSession_iff]
    refine forall₂_congr fun line _ => ?_
    rw [hline, String.toList_ofList]

/-- A program whose first expression is rejected is rejected for the same reason. -/
theorem run_program_of_operand_failed {levels : Nat} {stream rest : TokenStream}
    {failure : ParseFailure} (hint : stream.cur.kind = .int)
    (h : (operand .standard (expression .standard levels)).run stream = .failed failure rest) :
    (program (expression .standard (levels + 1))).run stream = .failed failure rest := by
  have hexpression : (expression .standard (levels + 1) .lowest).run stream = .failed failure rest :=
    Reading.run_bind_eq_failed.mpr (.inl h)
  have hstatement : (statement (expression .standard (levels + 1))).run stream =
      .failed failure rest := by
    rw [run_statement, if_neg (by simp [hint]), if_neg (by simp [hint]), expressionStatement,
      Reading.run_bind_current]
    exact Reading.run_bind_eq_failed.mpr (.inl hexpression)
  refine Reading.run_bind_eq_failed.mpr (.inl ?_)
  change (untilAfter .eof (statement _) [] stream).val = _
  rw [untilAfter_eq, if_neg (by simp [hint]), hstatement]

/-- A number of 4301 digits is neither a program nor a syntax error. -/
theorem long_number_escapes :
    ¬ ∀ source : String, (∃ node, parse source = .ok node) ∨
      ∃ error, parse source = .error (.invalid error) := by
  intro htotal
  have hnumber : IsNumber (List.replicate 4301 '1') :=
    ⟨by decide, fun c hc => by rw [List.eq_of_mem_replicate hc]; decide⟩
  have htokens : tokens (String.ofList (List.replicate 4301 '1')).toList =
      [⟨.int, String.ofList (List.replicate 4301 '1')⟩] := by
    have h := tokens_number_append hnumber []
    simpa only [String.toList_ofList, List.append_nil, List.takeWhile_nil, List.dropWhile_nil,
      tokens_nil] using h
  have hparse : parse (String.ofList (List.replicate 4301 '1')) = .error (.unreadable (.tooLong 4301)) := by
    have hlength : (String.ofList (List.replicate 4301 '1')).length = 4301 := by
      rw [String.length_ofList, List.length_replicate]
    have hoperand := run_operand_number (expression .standard 499)
      [⟨.int, String.ofList (List.replicate 4301 '1')⟩] rfl
      (by simpa only [TokenStream.cur_cons, Token.Spelled, String.toList_ofList] using hnumber)
    rw [TokenStream.cur_cons, hlength, if_neg (by decide)] at hoperand
    rw [parse, htokens, parseTokens, nestingLimit,
      run_program_of_operand_failed (TokenStream.cur_cons _ _ ▸ rfl) hoperand]
    rfl
  rcases htotal (String.ofList (List.replicate 4301 '1')) with ⟨node, hnode⟩ | ⟨error, herror⟩
  · rw [hparse] at hnode
    cases hnode
  · rw [hparse] at herror
    cases herror

/-- Leading zeros are part of a number and do not change its value. -/
theorem number_with_leading_zeros :
    (operand .standard (expression .standard 1)).run [⟨.int, "007"⟩] =
      .done (.integer ⟨.int, "007"⟩ 7) [⟨.int, "007"⟩] := by
  have h := (failures_escape_exactly_at_long_numbers {} "007" "> ").2.1 (expression .standard 1)
    [⟨.int, "007"⟩] rfl (by decide : IsNumber "007".toList)
  rwa [if_pos (by decide), if_pos (by decide)] at h

end Monkey
