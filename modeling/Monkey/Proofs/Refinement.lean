import Monkey.Proofs.Run

/-!
# Readings that differ in excused failures only

A reading refines another one if it ends as the other one does, or with a failure that is excused.
All constructs of the grammar preserve refinement, so a parser with fewer levels of nesting or fewer
rules ends as one with more of them, unless it reports just that.
-/

namespace Monkey

/-- A reading ends as another one does, unless its failure is excused. -/
def Reading.Refines {α : Type} (excused : ParseFailure → Prop) (reading other : Reading α) : Prop :=
  ∀ stream : TokenStream, (∃ failure rest, excused failure ∧ reading.run stream = .failed failure rest) ∨
    reading.run stream = other.run stream

namespace Reading

variable {α β : Type} {excused : ParseFailure → Prop} {reading other : Reading α}

/-- Every reading refines itself. -/
theorem Refines.refl (reading : Reading α) : reading.Refines excused reading := fun _ => .inr rfl

/-- Refinement is preserved by sequences. -/
theorem Refines.bind {following following' : α → Reading β} (h : reading.Refines excused other)
    (hfollowing : ∀ a, (following a).Refines excused (following' a)) :
    (reading >>= following).Refines excused (other >>= following') := by
  intro stream
  rw [run_bind, run_bind]
  rcases h stream with ⟨failure, rest, hexcused, hrun⟩ | hrun
  · exact .inl ⟨failure, rest, hexcused, by rw [hrun]⟩
  · rw [hrun]
    cases other.run stream with
    | failed failure rest => exact .inr rfl
    | done a rest => exact hfollowing a rest

/-- Refinement is preserved by what comes after a common first reading. -/
theorem Refines.after {following following' : α → Reading β}
    (h : ∀ a, (following a).Refines excused (following' a)) :
    (reading >>= following).Refines excused (reading >>= following') :=
  (Refines.refl reading).bind h

/-- Refinement is preserved by what comes before a common second reading. -/
theorem Refines.before {following : α → Reading β} (h : reading.Refines excused other) :
    (reading >>= following).Refines excused (other >>= following) :=
  h.bind fun a => Refines.refl (following a)

/-- Refinement is preserved by choices on a common condition. -/
theorem Refines.ite {p : Prop} [Decidable p] {no no' : Reading α}
    (hyes : reading.Refines excused other) (hno : no.Refines excused no') :
    (if p then reading else no).Refines excused (if p then other else no') := by
  split
  · exact hyes
  · exact hno

end Reading

namespace Grammar

open Reading

variable {α : Type} {excused : ParseFailure → Prop}

/-! ## Loops -/

/-- Refinement of the members is refinement of the list after the members read so far. -/
theorem refines_membersAfter {item item' : Reading α} (h : item.Refines excused item')
    (read : List α) : Reading.Refines excused (membersAfter item read) (membersAfter item' read) := by
  intro stream
  induction hlen : stream.length using Nat.strongRecOn generalizing stream read with
  | ind len ih =>
    change (∃ failure rest, _ ∧ (membersAfter item read stream).val = _) ∨
      (membersAfter item read stream).val = (membersAfter item' read stream).val
    rw [membersAfter_eq item, membersAfter_eq item']
    split
    · rename_i hcomma
      rcases h stream.advance with ⟨failure, rest, hexcused, hrun⟩ | hrun
      · exact .inl ⟨failure, rest, hexcused, by rw [hrun]⟩
      · rw [hrun]
        have hsuffix := (item'.rest_run_suffix stream.advance).length_le
        have hshort := TokenStream.length_advance_lt_of_peek
          (show stream.peek.kind ≠ .eof by simp [hcomma])
        cases hitem : item'.run stream.advance with
        | failed failure rest => exact .inr rfl
        | done member rest =>
          rw [hitem] at hsuffix
          exact ih rest.length (by simp only [Outcome.rest] at hsuffix; omega) _ rest rfl
    · exact .inr rfl

/-- Refinement of the members is refinement of the list in parentheses. -/
theorem refines_parenthesized {item item' : Reading α} (h : item.Refines excused item') :
    (parenthesized item).Refines excused (parenthesized item') :=
  Refines.after fun _ => .ite (.refl _) (h.bind fun first =>
    Refines.before (refines_membersAfter h [first]))

/-- Refinement of the turns is refinement of the loop after the turns made so far. -/
theorem refines_untilAfter {closer : TokenKind} {one one' : Reading α}
    (h : one.Refines excused one') (read : List α) :
    Reading.Refines excused (untilAfter closer one read) (untilAfter closer one' read) := by
  intro stream
  induction hlen : stream.length using Nat.strongRecOn generalizing stream read with
  | ind len ih =>
    change (∃ failure rest, _ ∧ (untilAfter closer one read stream).val = _) ∨
      (untilAfter closer one read stream).val = (untilAfter closer one' read stream).val
    rw [untilAfter_eq closer one, untilAfter_eq closer one']
    split
    · exact .inr rfl
    · rename_i hgo
      rcases h stream with ⟨failure, rest, hexcused, hrun⟩ | hrun
      · exact .inl ⟨failure, rest, hexcused, by rw [hrun]⟩
      · rw [hrun]
        have hsuffix := (one'.rest_run_suffix stream).length_le
        have hshort := TokenStream.length_advance_lt_of_cur fun heof => hgo (.inr heof)
        cases hone : one'.run stream with
        | failed failure rest => exact .inr rfl
        | done thing rest =>
          rw [hone] at hsuffix
          refine ih rest.advance.length ?_ _ rest.advance rfl
          simp only [Outcome.rest, TokenStream.advance, List.length_tail] at hsuffix hshort ⊢
          omega

/-! ## Constructs -/

/-- Refinement of expressions within every precedence. -/
def NestedRefines (excused : ParseFailure → Prop) (nested other : Nested) : Prop :=
  ∀ precedence, (nested precedence).Refines excused (other precedence)

/-- Rules of which some are missing, where a missing rule is excused. -/
structure RulesRefine (excused : ParseFailure → Prop) (rules other : Rules) : Prop where
  prefixRule (t : Token) : rules.prefixRule? t.kind = other.prefixRule? t.kind ∨
    rules.prefixRule? t.kind = none ∧ excused (.invalid (.missingPrefixRule t))
  infixRule (t : Token) : rules.infixRule? t.kind = other.infixRule? t.kind ∨
    rules.infixRule? t.kind = none ∧ excused (.invalid (.missingInfixRule t))

/-- No rule is missing. -/
theorem RulesRefine.refl (rules : Rules) : RulesRefine excused rules rules :=
  ⟨fun _ => .inl rfl, fun _ => .inl rfl⟩

variable {nested other : Nested}

theorem NestedRefines.statement (h : NestedRefines excused nested other) :
    (statement nested).Refines excused (statement other) := by
  refine Refines.after fun token => ?_
  split
  · exact .after fun _ => .after fun _ => .after fun _ => .after fun _ => .after fun _ =>
      .before (h _)
  · exact .after fun _ => .after fun _ => .before (h _)
  · exact .after fun _ => .before (h _)

theorem NestedRefines.blockStatement (h : NestedRefines excused nested other) :
    (blockStatement nested).Refines excused (blockStatement other) :=
  .after fun _ => .after fun _ => .before (refines_untilAfter h.statement [])

/-- Refinement of expressions is refinement of programs. -/
theorem NestedRefines.program (h : NestedRefines excused nested other) :
    (program nested).Refines excused (program other) :=
  .before (refines_untilAfter h.statement [])

theorem NestedRefines.applyPrefix (h : NestedRefines excused nested other) (rule : PrefixRule) :
    (applyPrefix nested rule).Refines excused (applyPrefix other rule) := by
  cases rule with
  | identifier | integer | boolean => exact .refl _
  | operator => exact .after fun _ => .after fun _ => .before (h _)
  | group => exact .after fun _ => .before (h _)
  | conditional =>
    refine .after fun _ => .after fun _ => .after fun _ => .bind (h _) fun _ => .after fun _ =>
      .after fun _ => .bind h.blockStatement fun _ => .after fun _ => .ite ?_ (.refl _)
    exact .after fun _ => .after fun _ => .before h.blockStatement
  | function =>
    exact .after fun _ => .after fun _ => .after fun _ => .after fun _ => .before h.blockStatement

theorem NestedRefines.applyInfix (h : NestedRefines excused nested other) (rule : InfixRule)
    (left : Node) : (applyInfix nested rule left).Refines excused (applyInfix other rule left) := by
  cases rule with
  | operator => exact .after fun _ => .after fun _ => .before (h _)
  | call => exact .after fun _ => .before (refines_parenthesized (.after fun _ => h _))

variable {fewer rules : Rules}

theorem NestedRefines.operand (h : NestedRefines excused nested other)
    (hrules : RulesRefine excused fewer rules) :
    (operand fewer nested).Refines excused (operand rules other) := by
  intro stream
  simp only [Grammar.operand, run_bind_current]
  rcases hrules.prefixRule stream.cur with heq | ⟨hnone, hexcused⟩
  · rw [heq]
    split
    · exact .inr rfl
    · exact h.applyPrefix _ stream
  · exact .inl ⟨_, stream, hexcused, by rw [hnone]; rfl⟩

theorem NestedRefines.continued (h : NestedRefines excused nested other)
    (hrules : RulesRefine excused fewer rules) (precedence : Precedence) (left : Node) :
    (continued fewer nested precedence left).Refines excused
      (continued rules other precedence left) := by
  intro stream
  induction hlen : stream.length using Nat.strongRecOn generalizing stream left with
  | ind len ih =>
    rw [run_continued, run_continued]
    split
    · rename_i hbinds
      rcases hrules.infixRule stream.peek with heq | ⟨hnone, hexcused⟩
      · rw [heq]
        split
        · exact .inr rfl
        · rename_i rule _
          rcases h.applyInfix rule left stream.advance with ⟨failure, rest, hexcused, hrun⟩ | hrun
          · exact .inl ⟨failure, rest, hexcused, by rw [hrun]⟩
          · rw [hrun]
            have hsuffix := ((Grammar.applyInfix other rule left).rest_run_suffix stream.advance).length_le
            have hpeek := Precedence.ne_eof_of_lt hbinds
            have hshort := TokenStream.length_advance_lt_of_peek hpeek
            cases happlied : (Grammar.applyInfix other rule left).run stream.advance with
            | failed failure rest => exact .inr rfl
            | done longer rest =>
              rw [happlied] at hsuffix
              exact ih rest.length (by simp only [Outcome.rest] at hsuffix; omega) longer rest rfl
      · exact .inl ⟨_, stream, hexcused, by rw [hnone]⟩
    · exact .inr rfl

theorem NestedRefines.expressionFrom (h : NestedRefines excused nested other)
    (hrules : RulesRefine excused fewer rules) :
    NestedRefines excused (expressionFrom fewer nested) (expressionFrom rules other) :=
  fun precedence => (h.operand hrules).bind fun left => h.continued hrules precedence left

/-- Fewer levels of nesting make no difference other than that nesting is too deep. -/
theorem nestedRefines_expression (rules : Rules)
    (hexcused : ∀ t, excused (.invalid (.nestingTooDeep t)))
    {levels more : Nat} (hle : levels ≤ more) :
    NestedRefines excused (expression rules levels) (expression rules more) := by
  induction levels generalizing more with
  | zero => exact fun _ stream => .inl ⟨_, stream, hexcused stream.cur, rfl⟩
  | succ levels ih =>
    obtain ⟨more, rfl⟩ := Nat.exists_eq_add_of_le' hle
    exact (ih (by omega : levels ≤ more + levels)).expressionFrom (.refl rules)

end Grammar

/-- A parse failed for the reason that nesting is too deep. -/
def ParseFailure.IsNestingTooDeep (failure : ParseFailure) : Prop :=
  ∃ t, failure = .invalid (.nestingTooDeep t)

/-- A limit on nesting replaces the result for every greater limit by a failure that says so, or it
makes no difference. -/
theorem parseTokens_of_le (rules : Rules) {levels more : Nat} (hle : levels ≤ more)
    (stream : TokenStream) :
    (∃ t, parseTokens rules levels stream = .error (.invalid (.nestingTooDeep t))) ∨
      parseTokens rules levels stream = parseTokens rules more stream := by
  have hexcused (t : Token) : ParseFailure.IsNestingTooDeep (.invalid (.nestingTooDeep t)) := ⟨t, rfl⟩
  have hrefines := (Grammar.nestedRefines_expression rules hexcused hle).program stream
  rcases hrefines with ⟨_, rest, ⟨t, rfl⟩, hrun⟩ | hrun
  · exact .inl ⟨t, by rw [parseTokens, hrun]; rfl⟩
  · exact .inr (by rw [parseTokens, parseTokens, hrun])

end Monkey
