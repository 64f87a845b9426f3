import Monkey.Grammar.Parse

/-!
# When readings succeed

One equivalence for each construct of the grammar: it is read exactly when its parts are read one
after the other, and the stream that the whole leaves is what its last part leaves. The loops are
unrolled into relations, so that nothing later opens their recursion.

Nothing here refers to a fixed set of rules or a number of levels; the expressions inside a
construct are read by an arbitrary `nested`.
-/

namespace Monkey

namespace Reading

variable {α β : Type}

@[simp]
theorem run_bind_current (following : Token → Reading β) (stream : TokenStream) :
    (current >>= following).run stream = (following stream.cur).run stream := by
  rw [run_bind, run_current]

@[simp]
theorem run_bind_upcoming (following : Token → Reading β) (stream : TokenStream) :
    (upcoming >>= following).run stream = (following stream.peek).run stream := by
  rw [run_bind, run_upcoming]

@[simp]
theorem run_bind_advance (following : Unit → Reading β) (stream : TokenStream) :
    (advance >>= following).run stream = (following ()).run stream.advance := by
  rw [run_bind, run_advance]

@[simp]
theorem run_bind_skip (kind : TokenKind) (following : Unit → Reading β) (stream : TokenStream) :
    (skip kind >>= following).run stream =
      (following ()).run (if stream.peek.kind = kind then stream.advance else stream) := by
  rw [run_bind, run_skip]

@[simp]
theorem run_bind_expect (kind : TokenKind) (following : Unit → Reading β) (stream : TokenStream) :
    (expect kind >>= following).run stream =
      if stream.peek.kind = kind then (following ()).run stream.advance
      else .failed (.invalid (.unexpectedToken kind stream.peek)) stream := by
  by_cases h : stream.peek.kind = kind <;> simp [run_bind, run_expect, h]

/-- A sequence of two readings succeeds exactly when both do. -/
theorem run_bind_eq_done {first : Reading α} {following : α → Reading β} {stream rest : TokenStream}
    {value : β} :
    (first >>= following).run stream = .done value rest ↔
      ∃ a mid, first.run stream = .done a mid ∧ (following a).run mid = .done value rest := by
  rw [run_bind]
  cases first.run stream with
  | done a mid => simp [and_assoc]
  | failed failure mid => simp

/-- A sequence of two readings fails exactly when the first does, or the second after it. -/
theorem run_bind_eq_failed {first : Reading α} {following : α → Reading β}
    {stream rest : TokenStream} {failure : ParseFailure} :
    (first >>= following).run stream = .failed failure rest ↔
      first.run stream = .failed failure rest ∨
        ∃ a mid, first.run stream = .done a mid ∧ (following a).run mid = .failed failure rest := by
  rw [run_bind]
  cases first.run stream with
  | done a mid => simp [and_assoc]
  | failed failure mid => simp

/-- A choice between readings runs the one that is chosen. -/
theorem run_ite (p : Prop) [Decidable p] (yes no : Reading α) (stream : TokenStream) :
    (if p then yes else no).run stream = if p then yes.run stream else no.run stream := by
  split <;> rfl

/-- What is done under a condition and fails otherwise is done exactly under the condition. -/
@[simp]
theorem ite_failed_eq_done {p : Prop} [Decidable p] {outcome : Outcome α} {failure : ParseFailure}
    {stream rest : TokenStream} {value : α} :
    (if p then outcome else .failed failure stream) = .done value rest ↔
      p ∧ outcome = .done value rest := by
  split <;> simp_all

end Reading

namespace Grammar

open Reading

variable {α : Type}

/-! ## Loops -/

/-- Members after a comma each, from the token before the first comma to the token before what
is not a comma. -/
inductive Members (item : Reading α) : TokenStream → List α → TokenStream → Prop
  | stop {stream : TokenStream} : stream.peek.kind ≠ .comma → Members item stream [] stream
  | step {stream mid rest : TokenStream} {member : α} {more : List α} :
      stream.peek.kind = .comma → item.run stream.advance = .done member mid →
      Members item mid more rest → Members item stream (member :: more) rest

/-- The loop over the members of a list succeeds exactly when each member is read. -/
theorem membersAfter_eq_done {item : Reading α} {read all : List α} {stream rest : TokenStream} :
    (membersAfter item read stream).val = .done all rest ↔
      ∃ more, Members item stream more rest ∧ all = read.reverse ++ more := by
  constructor
  · intro h
    induction hlen : stream.length using Nat.strongRecOn generalizing stream read with
    | ind len ih =>
      rw [membersAfter_eq] at h
      split at h
      · rename_i hcomma
        split at h
        · rename_i member mid hitem
          have hsuffix := item.rest_run_suffix stream.advance
          rw [hitem] at hsuffix
          have hshort : mid.length < len := by
            have hle : mid.length ≤ stream.advance.length := hsuffix.length_le
            have hlt : stream.advance.length < stream.length :=
              TokenStream.length_advance_lt_of_peek (by simp [hcomma])
            omega
          obtain ⟨more, hmore, rfl⟩ := ih mid.length hshort h rfl
          exact ⟨member :: more, .step hcomma hitem hmore, by simp⟩
        · simp at h
      · rename_i hstop
        obtain ⟨rfl, rfl⟩ := Outcome.done.inj h
        exact ⟨[], .stop hstop, by simp⟩
  · rintro ⟨more, hmore, rfl⟩
    induction hmore generalizing read with
    | stop hstop => simp [membersAfter_eq, hstop]
    | step hcomma hitem _ ih =>
      rw [membersAfter_eq, if_pos hcomma, hitem]
      simpa using @ih (_ :: read)

/-- A list in parentheses is empty or has a first member, further members and an end. -/
theorem run_parenthesized_eq_done {item : Reading α} {all : List α} {stream rest : TokenStream} :
    (parenthesized item).run stream = .done all rest ↔
      (stream.peek.kind = .rparen ∧ all = [] ∧ stream.advance = rest) ∨
      (stream.peek.kind ≠ .rparen ∧ ∃ first more mid last, item.run stream = .done first mid ∧
        Members item mid more last ∧ last.peek.kind = .rparen ∧ all = first :: more ∧
        last.advance = rest) := by
  simp only [parenthesized, run_bind_upcoming, run_ite]
  split
  · rename_i hempty
    simp [hempty, eq_comm]
  · rename_i hfull
    simp only [run_bind_eq_done, run_bind_expect, ite_failed_eq_done, run_give, Outcome.done.injEq]
    constructor
    · rintro ⟨first, mid, hfirst, found, last, hmembers, hclose, rfl, rfl⟩
      obtain ⟨more, hmore, rfl⟩ := membersAfter_eq_done.mp hmembers
      exact .inr ⟨hfull, first, more, mid, last, hfirst, hmore, hclose, rfl, rfl⟩
    · rintro (⟨hempty, _⟩ | ⟨_, first, more, mid, last, hfirst, hmore, hclose, rfl, rfl⟩)
      · exact absurd hempty hfull
      · exact ⟨first, mid, hfirst, first :: more, last,
          membersAfter_eq_done.mpr ⟨more, hmore, rfl⟩, hclose, rfl, rfl⟩

/-- Things one after the other, each on the token after the last one of the thing before it, up
to a token of the closing kind or the end of input. -/
inductive Turns (closer : TokenKind) (one : Reading α) : TokenStream → List α → TokenStream → Prop
  | stop {stream : TokenStream} :
      stream.cur.kind = closer ∨ stream.cur.kind = .eof → Turns closer one stream [] stream
  | step {stream mid rest : TokenStream} {thing : α} {more : List α} :
      ¬ (stream.cur.kind = closer ∨ stream.cur.kind = .eof) →
      one.run stream = .done thing mid → Turns closer one mid.advance more rest →
      Turns closer one stream (thing :: more) rest

/-- The loop up to a closing token succeeds exactly when each of its turns does. -/
theorem untilAfter_eq_done {closer : TokenKind} {one : Reading α} {read all : List α}
    {stream rest : TokenStream} :
    (untilAfter closer one read stream).val = .done all rest ↔
      ∃ more, Turns closer one stream more rest ∧ all = read.reverse ++ more := by
  constructor
  · intro h
    induction hlen : stream.length using Nat.strongRecOn generalizing stream read with
    | ind len ih =>
      rw [untilAfter_eq] at h
      split at h
      · rename_i hstop
        obtain ⟨rfl, rfl⟩ := Outcome.done.inj h
        exact ⟨[], .stop hstop, by simp⟩
      · rename_i hgo
        split at h
        · rename_i thing mid hone
          have hsuffix := one.rest_run_suffix stream
          rw [hone] at hsuffix
          have hshort : mid.advance.length < len := by
            have hle : mid.length ≤ stream.length := hsuffix.length_le
            have hlt : stream.advance.length < stream.length :=
              TokenStream.length_advance_lt_of_cur fun heof => hgo (.inr heof)
            simp only [TokenStream.advance, List.length_tail] at hlt ⊢
            omega
          obtain ⟨more, hmore, rfl⟩ := ih mid.advance.length hshort h rfl
          exact ⟨thing :: more, .step hgo hone hmore, by simp⟩
        · simp at h
  · rintro ⟨more, hmore, rfl⟩
    induction hmore generalizing read with
    | stop hstop => simp [untilAfter_eq, hstop]
    | step hgo hone _ ih =>
      rw [untilAfter_eq, if_neg hgo, hone]
      simpa using @ih (_ :: read)

/-- All things up to a closing token are read exactly when each turn succeeds. -/
theorem run_allUntil_eq_done {closer : TokenKind} {one : Reading α} {all : List α}
    {stream rest : TokenStream} :
    (allUntil closer one).run stream = .done all rest ↔ Turns closer one stream all rest := by
  change (untilAfter closer one [] stream).val = _ ↔ _
  simp [untilAfter_eq_done]

/-! ## Statements -/

variable {nested : Nested} {rules : Rules} {node left : Node} {stream rest : TokenStream}

@[simp]
theorem run_identifier (stream : TokenStream) :
    identifier.run stream = .done (.identifier stream.cur stream.cur.literal) stream := by
  simp [identifier]

/-- The stream from the semicolon on, if there is one after the current token. -/
def pastSemicolon (stream : TokenStream) : TokenStream :=
  if stream.peek.kind = .semicolon then stream.advance else stream

theorem run_letStatement_eq_done :
    (letStatement nested).run stream = .done node rest ↔
      stream.peek.kind = .ident ∧ stream.advance.peek.kind = .assign ∧
      ∃ value mid, (nested .lowest).run stream.advance.advance.advance = .done value mid ∧
        .letStatement stream.cur (.identifier stream.peek stream.peek.literal) value = node ∧
        pastSemicolon mid = rest := by
  simp [letStatement, run_bind_eq_done, TokenStream.cur_advance, pastSemicolon, and_assoc]

theorem run_returnStatement_eq_done :
    (returnStatement nested).run stream = .done node rest ↔
      ∃ value mid, (nested .lowest).run stream.advance = .done value mid ∧
        .returnStatement stream.cur value = node ∧ pastSemicolon mid = rest := by
  simp [returnStatement, run_bind_eq_done, pastSemicolon]

theorem run_expressionStatement_eq_done :
    (expressionStatement nested).run stream = .done node rest ↔
      ∃ value mid, (nested .lowest).run stream = .done value mid ∧
        .expressionStatement stream.cur value = node ∧ pastSemicolon mid = rest := by
  simp [expressionStatement, run_bind_eq_done, pastSemicolon]

/-- A statement is chosen by its first token. -/
theorem run_statement (stream : TokenStream) :
    (statement nested).run stream =
      if stream.cur.kind = .kwLet then (letStatement nested).run stream
      else if stream.cur.kind = .kwReturn then (returnStatement nested).run stream
      else (expressionStatement nested).run stream := by
  simp only [statement, run_bind_current]
  cases stream.cur.kind <;> rfl

theorem run_blockStatement_eq_done :
    (blockStatement nested).run stream = .done node rest ↔
      ∃ statements, Turns .rbrace (statement nested) stream.advance statements rest ∧
        .block stream.cur statements = node := by
  simp [blockStatement, run_bind_eq_done, run_allUntil_eq_done]

theorem run_program_eq_done :
    (program nested).run stream = .done node rest ↔
      ∃ statements, Turns .eof (statement nested) stream statements rest ∧
        .program rest.cur statements = node := by
  simp [program, run_bind_eq_done, run_allUntil_eq_done]

/-! ## Expressions -/

theorem run_integerLiteral_eq_done :
    integerLiteral.run stream = .done node rest ↔
      ∃ value, Text.Decimal.read stream.cur.literal = .ok value ∧ value ≤ maxInteger ∧
        .integer stream.cur value = node ∧ stream = rest := by
  simp only [integerLiteral, run_bind_current]
  cases Text.Decimal.read stream.cur.literal with
  | error error => simp
  | ok value =>
    simp only [run_ite]
    split
    · simp; omega
    · simp_all

@[simp]
theorem run_boolean (stream : TokenStream) :
    boolean.run stream =
      .done (.boolean stream.cur (decide (stream.cur.kind = .kwTrue))) stream := by
  simp [boolean]

theorem run_prefixExpression_eq_done :
    (prefixExpression nested).run stream = .done node rest ↔
      ∃ right, (nested .prefixOp).run stream.advance = .done right rest ∧
        .prefixOp stream.cur stream.cur.literal right = node := by
  simp [prefixExpression, run_bind_eq_done]

theorem run_infixExpression_eq_done :
    (infixExpression nested left).run stream = .done node rest ↔
      ∃ right, (nested (.ofKind stream.cur.kind)).run stream.advance = .done right rest ∧
        .infixOp stream.cur left stream.cur.literal right = node := by
  simp [infixExpression, run_bind_eq_done]

theorem run_groupedExpression_eq_done :
    (groupedExpression nested).run stream = .done node rest ↔
      ∃ mid, (nested .lowest).run stream.advance = .done node mid ∧ mid.peek.kind = .rparen ∧
        mid.advance = rest := by
  simp only [groupedExpression, run_bind_advance, run_bind_eq_done, run_bind_expect,
    ite_failed_eq_done, run_give, Outcome.done.injEq]
  constructor
  · rintro ⟨_, mid, hinner, hclose, rfl, rfl⟩
    exact ⟨mid, hinner, hclose, rfl⟩
  · rintro ⟨mid, hinner, hclose, rfl⟩
    exact ⟨node, mid, hinner, hclose, rfl, rfl⟩

/-- The blocks of a conditional: a second one is read exactly if `else` follows the first one. -/
inductive BranchesFrom (nested : Nested) : TokenStream → Node → Option Node → TokenStream → Prop
  | one {stream rest : TokenStream} {consequence : Node} :
      (blockStatement nested).run stream = .done consequence rest → rest.peek.kind ≠ .kwElse →
      BranchesFrom nested stream consequence none rest
  | two {stream mid rest : TokenStream} {consequence alternative : Node} :
      (blockStatement nested).run stream = .done consequence mid → mid.peek.kind = .kwElse →
      mid.advance.peek.kind = .lbrace →
      (blockStatement nested).run mid.advance.advance = .done alternative rest →
      BranchesFrom nested stream consequence (some alternative) rest

theorem run_ifExpression_eq_done :
    (ifExpression nested).run stream = .done node rest ↔
      stream.peek.kind = .lparen ∧
      ∃ condition mid, (nested .lowest).run stream.advance.advance = .done condition mid ∧
        mid.peek.kind = .rparen ∧ mid.advance.peek.kind = .lbrace ∧
      ∃ consequence alternative,
        BranchesFrom nested mid.advance.advance consequence alternative rest ∧
        .conditional stream.cur condition consequence alternative = node := by
  simp only [ifExpression, run_bind_current, run_bind_expect, ite_failed_eq_done, run_bind_advance,
    run_bind_eq_done, run_bind_upcoming, run_ite]
  constructor
  · rintro ⟨hopen, condition, mid, hcondition, hclose, hbrace, consequence, last, hblock, h⟩
    refine ⟨hopen, condition, mid, hcondition, hclose, hbrace, consequence, ?_⟩
    split at h
    · rename_i helse
      simp only [ite_failed_eq_done, run_bind_eq_done, run_give, Outcome.done.injEq] at h
      obtain ⟨hbrace', alternative, _, halternative, rfl, rfl⟩ := h
      exact ⟨some alternative, .two hblock helse hbrace' halternative, rfl⟩
    · rename_i helse
      obtain ⟨rfl, rfl⟩ := Outcome.done.inj h
      exact ⟨none, .one hblock helse, rfl⟩
  · rintro ⟨hopen, condition, mid, hcondition, hclose, hbrace, consequence, alternative, hend, rfl⟩
    refine ⟨hopen, condition, mid, hcondition, hclose, hbrace, consequence, ?_⟩
    cases hend with
    | one hblock helse => exact ⟨rest, hblock, by simp [helse]⟩
    | two hblock helse hbrace' halternative =>
      exact ⟨_, hblock, by simp [helse, hbrace', halternative, run_bind_eq_done]⟩

/-- A parameter is a name after the token before it. -/
theorem run_parameter_eq_done :
    (do expect .ident; identifier : Reading Node).run stream = .done node rest ↔
      stream.peek.kind = .ident ∧ .identifier stream.peek stream.peek.literal = node ∧
        stream.advance = rest := by
  simp [TokenStream.cur_advance]

theorem run_functionLiteral_eq_done :
    (functionLiteral nested).run stream = .done node rest ↔
      stream.peek.kind = .lparen ∧
      ∃ parameters mid, functionParameters.run stream.advance = .done parameters mid ∧
        mid.peek.kind = .lbrace ∧
      ∃ body, (blockStatement nested).run mid.advance = .done body rest ∧
        .function stream.cur parameters body = node := by
  simp [functionLiteral, run_bind_eq_done]

theorem run_callExpression_eq_done :
    (callExpression nested left).run stream = .done node rest ↔
      ∃ arguments, (callArguments nested).run stream = .done arguments rest ∧
        .call stream.cur left arguments = node := by
  simp [callExpression, run_bind_eq_done]

/-- An operand is what the rule for its first token reads. -/
theorem run_operand_eq_done :
    (operand rules nested).run stream = .done node rest ↔
      ∃ rule, rules.prefixRule? stream.cur.kind = some rule ∧
        (applyPrefix nested rule).run stream = .done node rest := by
  simp only [operand, run_bind_current]
  cases rules.prefixRule? stream.cur.kind <;> simp

/-- An expression is an operand and what goes on from it. -/
theorem run_expressionFrom_eq_done {precedence : Precedence} :
    (expressionFrom rules nested precedence).run stream = .done node rest ↔
      ∃ left mid, (operand rules nested).run stream = .done left mid ∧
        (continued rules nested precedence left).run mid = .done node rest := by
  simp [expressionFrom, run_bind_eq_done]

/-- One turn of going on from an expression. -/
theorem run_continued (precedence : Precedence) :
    (continued rules nested precedence left).run stream =
      if precedence < .ofKind stream.peek.kind then
        match rules.infixRule? stream.peek.kind with
        | none => .failed (.invalid (.missingInfixRule stream.peek)) stream
        | some rule =>
          match (applyInfix nested rule left).run stream.advance with
          | .done longer rest => (continued rules nested precedence longer).run rest
          | .failed failure rest => .failed failure rest
      else .done left stream :=
  continuedFrom_eq rules nested precedence left stream

end Grammar

end Monkey
