import Mathlib
import Monkey.Proofs.ReferenceGrammar
import Monkey.Proofs.Repair

/-!
# Errors are noticed at the first token that makes the input hopeless

A syntax error names a token. Whatever comes after this token, the parse ends with the same error, since
nothing after it has been looked at. The tokens before it, however, can be followed by others such that
the whole is a program.

The limit on nesting is no part of the grammar: the program that is found is parsed wherever the limit is
not reached, in particular with every sufficiently large one.
-/

namespace Monkey

open Filter

namespace TokenStream

variable {front unread other : List Token}

/-- A stream that agrees with another one up to some token starts with the same tokens. -/
theorem exists_append_of_getD_eq (hstream : Unended (front ++ unread))
    (h : ∀ i ≤ front.length, other.getD i .endOfInput = (front ++ unread).getD i .endOfInput) :
    ∃ more, other = front ++ more ∧ cur more = cur unread := by
  induction front generalizing other with
  | nil =>
    refine ⟨other, rfl, ?_⟩
    have hcur := h 0 (Nat.le_refl 0)
    cases other <;> cases unread <;> exact hcur
  | cons t front ih =>
    have ht : t.kind ≠ .eof := hstream t (by simp)
    cases other with
    | nil =>
      have hcur := h 0 (Nat.zero_le _)
      exact absurd (congrArg Token.kind hcur).symm ht
    | cons first rest =>
      obtain rfl : first = t := h 0 (Nat.zero_le _)
      obtain ⟨more, rfl, hcur⟩ := ih (hstream.of_suffix ⟨[first], rfl⟩) fun i hi =>
        h (i + 1) (by simpa using hi)
      exact ⟨more, rfl, hcur⟩

end TokenStream

/-- The index of the first token that a parse leaves unread. For a failed parse this is the token at
which it noticed the failure: the one after the current one if another kind was expected there, and
otherwise the current one. -/
def stopIndex (levels : Nat) (stream : TokenStream) : Nat :=
  stream.length - ((Grammar.program (Grammar.expression .standard levels)).run stream).unread.length

/-- What can be completed holds a program with the completion. -/
theorem exists_parse_of_completable {front unread completion : List Token} {stream : TokenStream}
    (h : Derivation.Completes .statements stream unread front completion) :
    ∃ node, (∀ limit, (∀ t, parseTokens .standard limit (front ++ completion) ≠
          .error (.invalid (.nestingTooDeep t))) →
        parseTokens .standard limit (front ++ completion) = .ok node) ∧
      ∀ᶠ limit in atTop, parseTokens .standard limit (front ++ completion) = .ok node := by
  obtain ⟨statements, hstatements⟩ :=
    h.complete [] (by decide : ¬ (TokenKind.eof).ContinuesExpression)
  rw [List.append_nil] at hstatements
  have hprogram := Derivation.Program.intro hstatements
  exact ⟨_, fun limit hlimit => parseTokens_of_derivation hprogram hlimit,
    eventually_parseTokens hprogram⟩

/-- A stream that agrees with another one up to the token at which its parse fails is not parsed
either, and for the same reason. -/
theorem parseTokens_of_agree {levels : Nat} {front unread more : List Token} {failure : ParseFailure}
    {rest : TokenStream} (hunread : failure.unread rest = unread)
    (hcur : TokenStream.cur more = TokenStream.cur unread)
    (hstream : TokenStream.Unended (front ++ unread)) (hmore : TokenStream.Unended more)
    (hrun : (Grammar.program (Grammar.expression .standard levels)).run (front ++ unread) =
      .failed failure rest) :
    parseTokens .standard levels (front ++ more) = .error failure := by
  cases unread with
  | nil =>
    obtain rfl := hmore.eq_nil (by rw [hcur]; rfl)
    rw [parseTokens, hrun]
    rfl
  | cons found back =>
    have hfound : (TokenStream.cur more).kind ≠ .eof := by
      rw [hcur]
      exact hstream found (by simp)
    obtain ⟨other, rfl⟩ : ∃ other, more = found :: other :=
      ⟨_, hcur ▸ TokenStream.eq_cons_of_cur more hfound⟩
    have hlocal : (Grammar.program (Grammar.expression .standard levels)).Local (front ++ [found]) :=
      Grammar.local_program (Grammar.local_expression levels)
    have halike := hlocal back other
    simp only [List.append_assoc, List.singleton_append] at halike
    rw [hrun] at halike
    specialize halike (by rw [Outcome.unread, hunread]; exact Nat.lt_succ_self _)
    rw [parseTokens]
    generalize (Grammar.program (Grammar.expression .standard levels)).run (front ++ found :: other) =
      outcome at halike ⊢
    cases halike with
    | failed => rfl

/-- A syntax error is noticed at the first token that makes the input hopeless. Every stream with the
same tokens up to this one is answered with the same error; and there are tokens of the language such
that the tokens before it hold a program with them. -/
theorem error_at_first_hopeless_token {levels : Nat} {stream : TokenStream} {error : SyntaxError}
    (hstream : stream.Unended) (h : parseTokens .standard levels stream = .error (.invalid error))
    (hlimit : ∀ t, error ≠ .nestingTooDeep t) :
    error.found = stream.getD (stopIndex levels stream) .endOfInput ∧
      error.kindName ∈ ["UNEXPECTED_TOKEN", "MISSING_PREFIX_RULE", "INVALID_INTEGER"] ∧
      (∀ other : TokenStream, other.Unended →
        (∀ i ≤ stopIndex levels stream, other.getD i .endOfInput = stream.getD i .endOfInput) →
        parseTokens .standard levels other = .error (.invalid error)) ∧
      ∃ more node, AllSpelled more ∧
        (∀ limit, (∀ t, parseTokens .standard limit (stream.take (stopIndex levels stream) ++ more) ≠
            .error (.invalid (.nestingTooDeep t))) →
          parseTokens .standard limit (stream.take (stopIndex levels stream) ++ more) = .ok node) ∧
        ∀ᶠ limit in atTop,
          parseTokens .standard limit (stream.take (stopIndex levels stream) ++ more) = .ok node := by
  obtain ⟨rest, hrun⟩ := run_of_parseTokens_eq_error h
  obtain ⟨hkind, hfound, front, completion, hcompletes⟩ :=
    (Grammar.repairs_program levels hstream _ _ hrun).completable hlimit
  obtain ⟨node, hnode⟩ := exists_parse_of_completable hcompletes
  have hindex : stopIndex levels stream = front.length := by
    have hlength := congrArg List.length hcompletes.eq
    rw [List.length_append] at hlength
    rw [stopIndex, hrun, Outcome.unread]
    omega
  have htake : stream.take front.length = front := by
    rw [hcompletes.eq, List.take_left]
  rw [hindex, htake]
  refine ⟨?_, hkind, fun other hother hagree => ?_, completion, node, hcompletes.spelled, hnode⟩
  · rw [hfound, hcompletes.eq, List.getD_append_right _ _ _ _ (Nat.le_refl _), Nat.sub_self]
    cases (ParseFailure.invalid error).unread rest <;> rfl
  · rw [hcompletes.eq] at hagree hrun hstream
    obtain ⟨more, rfl, hcur⟩ := TokenStream.exists_append_of_getD_eq hstream hagree
    exact parseTokens_of_agree rfl hcur hstream (hother.of_suffix (List.suffix_append front more)) hrun

set_option maxRecDepth 20000 in
/-- In `let x 5` the number is the first token that cannot be there: no other tokens after it help, and
other ones in its place do. -/
theorem error_at_number_after_name :
    parseTokens .standard Grammar.nestingLimit
        [⟨.kwLet, "let"⟩, ⟨.ident, "x"⟩, ⟨.int, "5"⟩, ⟨.assign, "="⟩] =
        .error (.invalid (.unexpectedToken .assign ⟨.int, "5"⟩)) ∧
      ∃ more node, AllSpelled more ∧ ∀ᶠ limit in atTop,
        parseTokens .standard limit ([⟨.kwLet, "let"⟩, ⟨.ident, "x"⟩] ++ more) = .ok node := by
  have hparse : parseTokens .standard Grammar.nestingLimit
      [⟨.kwLet, "let"⟩, ⟨.ident, "x"⟩, ⟨.int, "5"⟩] =
      .error (.invalid (.unexpectedToken .assign ⟨.int, "5"⟩)) := by cbv
  have hindex : stopIndex Grammar.nestingLimit
      [⟨.kwLet, "let"⟩, ⟨.ident, "x"⟩, ⟨.int, "5"⟩] = 2 := by cbv
  obtain ⟨-, -, hsame, more, node, hspelled, -, hprogram⟩ :=
    error_at_first_hopeless_token (by simp [TokenStream.Unended]) hparse (by simp)
  rw [hindex] at hsame hprogram
  refine ⟨hsame _ (by simp [TokenStream.Unended]) fun i hi => ?_, more, node, hspelled, hprogram⟩
  interval_cases i <;> rfl

end Monkey
