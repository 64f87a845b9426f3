import Monkey.Proofs.Run
import Monkey.Proofs.Derivation

/-!
# What is read is derived

Every phrase that is read with the rules of the language has a derivation in the reference grammar,
from the stream it was read from to what follows the token it leaves as the current one.

The argument for expressions carries two facts. The expression read so far belongs to a level
tighter than the precedence around it, and the token after it binds no tighter than that level. The
second one makes the next operator apply to the whole of what has been read.
-/

namespace Monkey

/-- A stream whose tokens all come before the end of input. -/
def TokenStream.Unended (stream : TokenStream) : Prop := ∀ t ∈ stream, t.kind ≠ .eof

/-- What is left of such a stream is one again. -/
theorem TokenStream.Unended.of_suffix {stream rest : TokenStream} (h : stream.Unended)
    (hsuffix : rest <:+ stream) : rest.Unended := fun t ht => h t (hsuffix.subset ht)

/-- Advancing keeps the end of input ahead. -/
theorem TokenStream.Unended.advance {stream : TokenStream} (h : stream.Unended) :
    stream.advance.Unended := h.of_suffix stream.advance_suffix

/-- Only an exhausted stream is at the end of input. -/
theorem TokenStream.Unended.eq_nil {stream : TokenStream} (h : stream.Unended)
    (heof : stream.cur.kind = .eof) : stream = [] := by
  cases stream with
  | nil => rfl
  | cons t rest => exact absurd heof (h t List.mem_cons_self)

/-- What a successful reading leaves is a suffix of what it was given. -/
theorem Reading.suffix_of_run {α : Type} {reading : Reading α} {stream rest : TokenStream}
    {value : α} (h : reading.run stream = .done value rest) : rest <:+ stream := by
  have hsuffix := reading.rest_run_suffix stream
  rwa [h] at hsuffix

namespace Grammar

open Monkey.Derivation TokenStream

/-- Expressions that are read with a precedence around them are derived on the level within it, and
the token after them does not bind tighter than that precedence. -/
def Sound (nested : Nested) : Prop :=
  ∀ {precedence : Precedence} {stream rest : TokenStream} {node : Node}, precedence ≠ .call →
    stream.Unended → (nested precedence).run stream = .done node rest →
    Expression precedence.within stream node rest.advance ∧
      (Precedence.ofKind rest.peek.kind).level ≤ precedence.level

variable {nested : Nested} {stream rest : TokenStream} {node : Node}

/-- An expression that is read in full is derived, and nothing goes on with it. -/
theorem Sound.lowest (hnested : Sound nested) (hstream : stream.Unended)
    (h : (nested .lowest).run stream = .done node rest) :
    Expression .equals stream node rest.advance ∧ ¬ rest.peek.kind.ContinuesExpression := by
  obtain ⟨hexpr, hlevel⟩ := hnested (by decide) hstream h
  refine ⟨hexpr, ?_⟩
  rw [Precedence.continuesExpression_iff]
  exact Nat.not_lt.mpr hlevel

/-- The semicolon after an expression is the end of the statement. -/
theorem statementEnd_pastSemicolon (h : ¬ stream.peek.kind.ContinuesExpression) :
    StatementEnd stream.advance (pastSemicolon stream).advance := by
  unfold pastSemicolon
  split
  · rename_i hsemicolon
    rw [advance_eq_cons_of_peek _ (by simp [hsemicolon])]
    exact .semicolon hsemicolon
  · exact .bare h

theorem Sound.statement (hnested : Sound nested) (hstream : stream.Unended)
    (h : (statement nested).run stream = .done node rest)
    (hcur : stream.cur.kind ≠ .eof) : Statement stream node rest.advance := by
  rw [run_statement] at h
  split at h
  · rename_i hlet
    obtain ⟨hname, hassign, value, mid, hvalue, rfl, rfl⟩ := run_letStatement_eq_done.mp h
    obtain ⟨hexpr, hnext⟩ := hnested.lowest hstream.advance.advance.advance hvalue
    rw [eq_cons_of_cur _ hcur, advance_eq_cons_of_peek _ (by simp [hname]),
      advance_eq_cons_of_peek stream.advance (by simp [hassign])]
    exact .letStatement hlet hname hassign hexpr (statementEnd_pastSemicolon hnext)
  · split at h
    · rename_i hreturn
      obtain ⟨value, mid, hvalue, rfl, rfl⟩ := run_returnStatement_eq_done.mp h
      obtain ⟨hexpr, hnext⟩ := hnested.lowest hstream.advance hvalue
      rw [eq_cons_of_cur _ hcur]
      exact .returnStatement hreturn hexpr (statementEnd_pastSemicolon hnext)
    · obtain ⟨value, mid, hvalue, rfl, rfl⟩ := run_expressionStatement_eq_done.mp h
      obtain ⟨hexpr, hnext⟩ := hnested.lowest hstream hvalue
      rw [eq_cons_of_cur _ hcur] at hexpr ⊢
      exact .expressionStatement hexpr (statementEnd_pastSemicolon hnext)

/-- The turns of a loop over statements are derived one after the other. -/
theorem Sound.statements (hnested : Sound nested) {closer : TokenKind} {statements : List Node}
    (hstream : stream.Unended)
    (h : Turns closer (Grammar.statement nested) stream statements rest) :
    Statements stream statements rest ∧ (rest.cur.kind = closer ∨ rest.cur.kind = .eof) := by
  induction h with
  | stop hstop => exact ⟨.nil, hstop⟩
  | step hgo hone _ ih =>
    have hmid := hstream.of_suffix (Reading.suffix_of_run hone)
    obtain ⟨hmore, hstop⟩ := ih hmid.advance
    exact ⟨.cons (hnested.statement hstream hone fun heof => hgo (.inr heof)) hmore, hstop⟩

theorem Sound.block (hnested : Sound nested) (hstream : stream.Unended)
    (hcur : stream.cur.kind = .lbrace)
    (h : (blockStatement nested).run stream = .done node rest) :
    Block stream node rest.advance := by
  obtain ⟨statements, hturns, rfl⟩ := run_blockStatement_eq_done.mp h
  obtain ⟨hstatements, hstop⟩ := hnested.statements hstream.advance hturns
  rw [eq_cons_of_cur stream (by simp [hcur])]
  rcases hstop with hclose | heof
  · rw [eq_cons_of_cur rest (by simp [hclose])] at hstatements
    exact .closed hcur hstatements hclose
  · have hrest : rest.Unended := hstream.of_suffix (Reading.suffix_of_run h)
    obtain rfl := hrest.eq_nil heof
    exact .unclosed hcur hstatements

/-- Parameters after a comma each, up to the closing parenthesis. -/
theorem moreParameters_of_members {more : List Node}
    (h : Members (do Reading.expect .ident; identifier) stream more rest)
    (hclose : rest.peek.kind = .rparen) :
    MoreParameters stream.advance more rest.advance.advance := by
  induction h with
  | stop =>
    rw [advance_eq_cons_of_peek _ (by simp [hclose])]
    exact .close hclose
  | @step stream mid rest member more hcomma hitem _ ih =>
    obtain ⟨hname, rfl, rfl⟩ := run_parameter_eq_done.mp hitem
    rw [advance_eq_cons_of_peek stream (by simp [hcomma]),
      advance_eq_cons_of_peek stream.advance (by simp [hname])]
    exact .comma hcomma hname (ih hclose)

theorem parameters_of_run {parameters : List Node}
    (h : functionParameters.run stream = .done parameters rest) :
    Parameters stream.advance parameters rest.advance := by
  rcases run_parenthesized_eq_done.mp h with ⟨hempty, rfl, rfl⟩ |
    ⟨_, first, more, mid, last, hitem, hmembers, hclose, rfl, rfl⟩
  · rw [advance_eq_cons_of_peek _ (by simp [hempty])]
    exact .none hempty
  · obtain ⟨hname, rfl, rfl⟩ := run_parameter_eq_done.mp hitem
    rw [advance_eq_cons_of_peek stream (by simp [hname])]
    exact .some hname (moreParameters_of_members hmembers hclose)

/-- Arguments after a comma each, up to the closing parenthesis. -/
theorem Sound.moreArguments (hnested : Sound nested) {more : List Node} (hstream : stream.Unended)
    (h : Members (do Reading.advance; nested .lowest) stream more rest)
    (hclose : rest.peek.kind = .rparen) :
    MoreArguments stream.advance more rest.advance.advance := by
  induction h with
  | stop =>
    rw [advance_eq_cons_of_peek _ (by simp [hclose])]
    exact .close hclose
  | @step stream mid rest member more hcomma hitem _ ih =>
    have hmid := hstream.advance.of_suffix (Reading.suffix_of_run hitem)
    rw [Reading.run_bind_advance] at hitem
    rw [advance_eq_cons_of_peek stream (by simp [hcomma])]
    exact .comma hcomma (hnested.lowest hstream.advance.advance hitem).1 (ih hmid hclose)

theorem Sound.arguments (hnested : Sound nested) {arguments : List Node}
    (hstream : stream.Unended) (h : (callArguments nested).run stream = .done arguments rest) :
    Arguments stream.advance arguments rest.advance := by
  rcases run_parenthesized_eq_done.mp h with ⟨hempty, rfl, rfl⟩ |
    ⟨_, first, more, mid, last, hitem, hmembers, hclose, rfl, rfl⟩
  · rw [advance_eq_cons_of_peek _ (by simp [hempty])]
    exact .none hempty
  · have hmid := hstream.of_suffix (Reading.suffix_of_run hitem)
    rw [Reading.run_bind_advance] at hitem
    exact .some (hnested.lowest hstream.advance hitem).1
      (hnested.moreArguments hmid hmembers hclose)

theorem Sound.branches (hnested : Sound nested) {consequence : Node} {alternative : Option Node}
    (hstream : stream.Unended) (hcur : stream.cur.kind = .lbrace)
    (h : BranchesFrom nested stream consequence alternative rest) :
    Branches stream consequence alternative rest.advance := by
  cases h with
  | one hblock => exact .one (hnested.block hstream hcur hblock)
  | two hblock helse hbrace halternative =>
    rename_i mid alternative
    have hmid := hstream.of_suffix (Reading.suffix_of_run hblock)
    have hfirst := hnested.block hstream hcur hblock
    rw [advance_eq_cons_of_peek mid (by simp [helse])] at hfirst
    exact .two hfirst helse (hnested.block hmid.advance.advance hbrace halternative)

theorem Sound.conditional (hnested : Sound nested) (hstream : stream.Unended)
    (hcur : stream.cur.kind = .kwIf) (h : (ifExpression nested).run stream = .done node rest) :
    Expression .call stream node rest.advance := by
  obtain ⟨hopen, condition, mid, hcondition, hclose, hbrace, consequence, alternative, hend, rfl⟩ :=
    run_ifExpression_eq_done.mp h
  have hmid := hstream.advance.advance.of_suffix (Reading.suffix_of_run hcondition)
  have hexpr := (hnested.lowest hstream.advance.advance hcondition).1
  rw [advance_eq_cons_of_peek mid (by simp [hclose])] at hexpr
  rw [eq_cons_of_cur stream (by simp [hcur]),
    advance_eq_cons_of_peek stream (by simp [hopen])]
  exact .conditional hcur hopen hexpr hclose (hnested.branches hmid.advance.advance hbrace hend)

theorem Sound.function (hnested : Sound nested) (hstream : stream.Unended)
    (hcur : stream.cur.kind = .kwFunction)
    (h : (functionLiteral nested).run stream = .done node rest) :
    Expression .call stream node rest.advance := by
  obtain ⟨hopen, parameters, mid, hparameters, hbrace, body, hbody, rfl⟩ :=
    run_functionLiteral_eq_done.mp h
  have hmid := hstream.advance.of_suffix (Reading.suffix_of_run hparameters)
  rw [eq_cons_of_cur stream (by simp [hcur]),
    advance_eq_cons_of_peek stream (by simp [hopen])]
  exact .function hcur hopen (parameters_of_run hparameters)
    (hnested.block hmid.advance hbrace hbody)

/-- What an operand is: an expression without operators, or a prefix operator and its operand. -/
theorem Sound.operand (hnested : Sound nested) (hstream : stream.Unended)
    (h : (operand .standard nested).run stream = .done node rest) :
    Expression .call stream node rest.advance ∨
      (Expression .prefixOp stream node rest.advance ∧
        (Precedence.ofKind rest.peek.kind).level ≤ Precedence.prefixOp.level) := by
  obtain ⟨rule, hrule, hrun⟩ := run_operand_eq_done.mp h
  have hcur : stream.cur.kind ≠ .eof := fun heof => by simp [Rules.standard, heof] at hrule
  have hcons := eq_cons_of_cur _ hcur
  cases hkind : stream.cur.kind <;> simp only [Rules.standard, hkind, reduceCtorEq,
    Option.some.injEq] at hrule <;> subst hrule
  case ident =>
    simp only [applyPrefix, run_identifier, Outcome.done.injEq] at hrun
    obtain ⟨rfl, rfl⟩ := hrun
    exact .inl (hcons ▸ .identifier hkind)
  case int =>
    obtain ⟨value, hread, hle, rfl, rfl⟩ := run_integerLiteral_eq_done.mp hrun
    exact .inl (hcons ▸ .integer hkind hread hle)
  case kwTrue =>
    simp only [applyPrefix, run_boolean, Outcome.done.injEq] at hrun
    obtain ⟨rfl, rfl⟩ := hrun
    rw [hkind, decide_eq_true rfl]
    exact .inl (hcons ▸ .yes hkind)
  case kwFalse =>
    simp only [applyPrefix, run_boolean, Outcome.done.injEq] at hrun
    obtain ⟨rfl, rfl⟩ := hrun
    rw [hkind, decide_eq_false (by decide)]
    exact .inl (hcons ▸ .no hkind)
  case bang | minus =>
    obtain ⟨right, hright, rfl⟩ := run_prefixExpression_eq_done.mp hrun
    obtain ⟨hexpr, hlevel⟩ := hnested (by decide) hstream.advance hright
    rw [hcons]
    exact .inr ⟨.prefixOp (by simp [hkind]) hexpr, hlevel⟩
  case lparen =>
    obtain ⟨mid, hinner, hclose, rfl⟩ := run_groupedExpression_eq_done.mp hrun
    have hexpr := (hnested.lowest hstream.advance hinner).1
    rw [advance_eq_cons_of_peek mid (by simp [hclose])] at hexpr
    rw [hcons]
    exact .inl (.group hkind hexpr hclose)
  case kwIf => exact .inl (hnested.conditional hstream hkind hrun)
  case kwFunction => exact .inl (hnested.function hstream hkind hrun)

/-- What the rule for an operator makes of an expression on a level that the operator does not exceed
is an expression on the level of the operator, and the token after it binds no tighter. -/
theorem Sound.applyInfix (hnested : Sound nested) {level : Precedence} {rule : InfixRule}
    {left longer : Node} {input : List Token} (hstream : stream.Unended)
    (hleft : Expression level input left stream.advance)
    (hnext : (Precedence.ofKind stream.peek.kind).level ≤ level.level)
    (hrule : Rules.standard.infixRule? stream.peek.kind = some rule)
    (h : (applyInfix nested rule left).run stream.advance = .done longer rest) :
    Expression (.ofKind stream.peek.kind) input longer rest.advance ∧
      (Precedence.ofKind rest.peek.kind).level ≤ (Precedence.ofKind stream.peek.kind).level := by
  have hcons : stream.advance = stream.peek :: stream.advance.advance :=
    advance_eq_cons_of_peek _ fun heof => by simp [Rules.standard, heof] at hrule
  rw [hcons] at hleft
  cases rule with
  | operator =>
    obtain ⟨right, hright, rfl⟩ := run_infixExpression_eq_done.mp h
    rw [cur_advance] at hright
    have hmem := Precedence.mem_operators_of_infixRule hrule
    have hne := Precedence.ne_call_of_mem_operators hmem
    obtain ⟨hexpr, hafter⟩ := hnested hne hstream.advance.advance hright
    rw [Precedence.within_of_mem_operators hmem] at hexpr
    exact ⟨.infixOp hmem (hleft.loosen _ hnext) hexpr, hafter⟩
  | call =>
    obtain ⟨arguments, harguments, rfl⟩ := run_callExpression_eq_done.mp h
    have hparen := Precedence.eq_lparen_of_infixRule hrule
    have hcall : Expression .call input left (stream.peek :: stream.advance.advance) := by
      rw [hparen] at hnext
      exact hleft.loosen .call hnext
    refine ⟨?_, ?_⟩
    · rw [hparen]
      exact .call hcall hparen (hnested.arguments hstream.advance harguments)
    · rw [hparen]
      exact Precedence.level_le_call _

/-- Going on from an expression of a level that the next token does not exceed. -/
theorem Sound.continued (hnested : Sound nested) {precedence level : Precedence} {left : Node}
    {input : List Token} (hlevel : precedence.within.level ≤ level.level) (hstream : stream.Unended)
    (hleft : Expression level input left stream.advance)
    (hnext : (Precedence.ofKind stream.peek.kind).level ≤ level.level)
    (h : (continued .standard nested precedence left).run stream = .done node rest) :
    Expression precedence.within input node rest.advance ∧
      (Precedence.ofKind rest.peek.kind).level ≤ precedence.level := by
  induction hlen : stream.length using Nat.strongRecOn generalizing stream left level with
  | ind len ih =>
    rw [run_continued] at h
    split at h
    · rename_i hbinds
      have hshort : stream.advance.length < stream.length :=
        length_advance_lt_of_peek (Precedence.ne_eof_of_lt hbinds)
      split at h
      · simp at h
      · rename_i rule hrule
        split at h
        · rename_i longer mid hlonger
          have hsuffix := Reading.suffix_of_run hlonger
          have hlt : mid.length < len := hlen ▸ Nat.lt_of_le_of_lt hsuffix.length_le hshort
          have hwithin : precedence.within.level ≤ (Precedence.ofKind stream.peek.kind).level :=
            Nat.le_trans precedence.level_within_le hbinds
          obtain ⟨hexpr, hafter⟩ := hnested.applyInfix hstream hleft hnext hrule hlonger
          exact ih mid.length hlt hwithin (hstream.advance.of_suffix hsuffix) hexpr hafter h rfl
        · simp at h
    · rename_i hstop
      obtain ⟨rfl, rfl⟩ := Outcome.done.inj h
      exact ⟨hleft.loosen _ hlevel, Nat.not_lt.mp hstop⟩

/-- Expressions are sound when the expressions inside them are. -/
theorem Sound.expressionFrom (hnested : Sound nested) :
    Sound (expressionFrom .standard nested) := by
  intro precedence stream rest node hne hstream h
  obtain ⟨left, mid, hleft, hrest⟩ := run_expressionFrom_eq_done.mp h
  have hmid := hstream.of_suffix (Reading.suffix_of_run hleft)
  rcases hnested.operand hstream hleft with hexpr | ⟨hexpr, hnext⟩
  · exact hnested.continued (Precedence.level_le_call _) hmid hexpr (Precedence.level_le_call _)
      hrest
  · have hlevel : precedence.within.level ≤ Precedence.prefixOp.level := by
      revert hne
      cases precedence <;> decide
    exact hnested.continued hlevel hmid hexpr hnext hrest

/-- Expressions are sound at every number of levels of nesting. -/
theorem sound_expression (levels : Nat) : Sound (expression .standard levels) := by
  induction levels with
  | zero =>
    intro precedence stream rest node _ _ h
    simp [expression] at h
  | succ levels ih => exact ih.expressionFrom

end Grammar

/-- A program that is read from tokens has a derivation from them. -/
theorem derivation_of_parseTokens {levels : Nat} {stream : TokenStream} {node : Node}
    (hstream : stream.Unended) (h : parseTokens .standard levels stream = .ok node) :
    Derivation.Program stream node := by
  unfold parseTokens at h
  cases hrun : (Grammar.program (Grammar.expression .standard levels)).run stream with
  | failed failure rest => simp [hrun, Outcome.result] at h
  | done value rest =>
    obtain rfl : value = node := by simpa [hrun, Outcome.result] using h
    obtain ⟨statements, hturns, rfl⟩ := Grammar.run_program_eq_done.mp hrun
    obtain ⟨hstatements, hstop⟩ :=
      Grammar.Sound.statements (Grammar.sound_expression levels) hstream hturns
    have hrest : rest.Unended := hstream.of_suffix (Reading.suffix_of_run hrun)
    obtain rfl := hrest.eq_nil (by simpa using hstop)
    exact .intro hstatements

end Monkey
