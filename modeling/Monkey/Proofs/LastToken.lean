import Monkey.Proofs.Extension
import Monkey.Proofs.Soundness

/-!
# The last token of a construct

Where a reading of a construct ends on a token, every block in the construct is closed up to this token.
Where it ends on the end of input, there is a block in the construct that the end of input has closed.
This is seen from the braces: each of these blocks has one that is opened and not closed.
-/

namespace Monkey

/-- How many more braces are opened in a stream than closed. -/
def surplus (stream : List Token) : Int := openingBraces stream - closingBraces stream

theorem surplus_append (front back : List Token) :
    surplus (front ++ back) = surplus front + surplus back := by
  simp only [surplus, openingBraces_append, closingBraces_append]
  omega

namespace Grammar

open TokenStream

/-- A token is no brace. -/
def NoBrace (kind : TokenKind) : Prop := kind ≠ .lbrace ∧ kind ≠ .rbrace

instance (kind : TokenKind) : Decidable (NoBrace kind) :=
  inferInstanceAs (Decidable (kind ≠ .lbrace ∧ kind ≠ .rbrace))

/-- What is read from a stream up to the current token of another one leaves no block open, or it has
come to the end of input with a block left open. -/
structure Closes (stream rest : TokenStream) : Prop where
  closed : rest ≠ [] → surplus stream = surplus rest.advance
  opened : rest = [] → 0 < surplus stream

variable {stream mid rest : TokenStream}

/-- A token other than a brace counts for nothing. -/
theorem surplus_advance (h : NoBrace stream.cur.kind) : surplus stream.advance = surplus stream := by
  cases stream with
  | nil => rfl
  | cons t rest => simp [surplus, openingBraces_cons, closingBraces_cons, show t.kind ≠ .lbrace from h.1,
      show t.kind ≠ .rbrace from h.2]

theorem ne_nil_of_cur (h : stream.cur.kind ≠ .eof) : stream ≠ [] := by
  rintro rfl
  exact h rfl

theorem ne_nil_of_peek (h : stream.peek.kind ≠ .eof) : stream ≠ [] := by
  rintro rfl
  exact h rfl

namespace Closes

/-- A single token. -/
theorem single (hcur : stream.cur.kind ≠ .eof) (h : NoBrace stream.cur.kind) : Closes stream stream where
  closed _ := (surplus_advance h).symm
  opened hnil := absurd hnil (ne_nil_of_cur hcur)

/-- A token before what is read. -/
theorem cons (hcur : NoBrace stream.cur.kind) (h : Closes stream.advance rest) : Closes stream rest where
  closed hrest := by rw [← surplus_advance hcur, h.closed hrest]
  opened hrest := by
    rw [← surplus_advance hcur]
    exact h.opened hrest

/-- More is read after a token. -/
theorem trans (h : Closes stream mid) (hmid : mid ≠ []) (h' : Closes mid.advance rest) :
    Closes stream rest where
  closed hrest := by rw [h.closed hmid, h'.closed hrest]
  opened hrest := by
    rw [h.closed hmid]
    exact h'.opened hrest

/-- An expected token after what is read. -/
theorem expected {kind : TokenKind} (h : Closes stream mid) (hpeek : mid.peek.kind = kind)
    (hkind : NoBrace kind) (heof : kind ≠ .eof) : Closes stream mid.advance :=
  h.trans (ne_nil_of_peek (hpeek ▸ heof))
    (.single (by rw [cur_advance, hpeek]; exact heof) (by rwa [cur_advance, hpeek]))

/-- A semicolon after what is read. -/
theorem pastSemicolon (h : Closes stream mid) : Closes stream (pastSemicolon mid) := by
  unfold Grammar.pastSemicolon
  split
  · exact h.expected ‹_› (by decide) (by decide)
  · exact h

end Closes

/-! ## Constructs -/

variable {nested : Nested} {node left : Node}

/-- All expressions that are read close their blocks. -/
def Closing (nested : Nested) : Prop :=
  ∀ {precedence : Precedence} {stream rest : TokenStream} {node : Node}, stream.Unended →
    (nested precedence).run stream = .done node rest → Closes stream rest

theorem closes_letStatement (hnested : Closing nested) (hstream : stream.Unended)
    (hcur : NoBrace stream.cur.kind) (h : (letStatement nested).run stream = .done node rest) :
    Closes stream rest := by
  obtain ⟨hname, hassign, value, mid, hvalue, rfl, rfl⟩ := run_letStatement_eq_done.mp h
  have hclose := hnested hstream.advance.advance.advance hvalue
  refine .pastSemicolon (.cons hcur (.cons ?_ (.cons ?_ hclose)))
  · rw [cur_advance, hname]
    decide
  · rw [cur_advance, hassign]
    decide

theorem closes_returnStatement (hnested : Closing nested) (hstream : stream.Unended)
    (hcur : NoBrace stream.cur.kind) (h : (returnStatement nested).run stream = .done node rest) :
    Closes stream rest := by
  obtain ⟨value, mid, hvalue, rfl, rfl⟩ := run_returnStatement_eq_done.mp h
  exact .pastSemicolon (.cons hcur (hnested hstream.advance hvalue))

theorem closes_expressionStatement (hnested : Closing nested) (hstream : stream.Unended)
    (h : (expressionStatement nested).run stream = .done node rest) : Closes stream rest := by
  obtain ⟨value, mid, hvalue, rfl, rfl⟩ := run_expressionStatement_eq_done.mp h
  exact .pastSemicolon (hnested hstream hvalue)

theorem closes_statement (hnested : Closing nested) (hstream : stream.Unended)
    (h : (statement nested).run stream = .done node rest) : Closes stream rest := by
  rw [run_statement] at h
  split at h
  · rename_i hlet
    exact closes_letStatement hnested hstream (by rw [hlet]; decide) h
  · split at h
    · rename_i hreturn
      exact closes_returnStatement hnested hstream (by rw [hreturn]; decide) h
    · exact closes_expressionStatement hnested hstream h

/-- A loop ends on its closing token or on the end of input. -/
theorem Turns.stops {α : Type} {closer : TokenKind} {one : Reading α} {all : List α}
    (h : Turns closer one stream all rest) : rest.cur.kind = closer ∨ rest.cur.kind = .eof := by
  induction h with
  | stop hstop => exact hstop
  | step _ _ _ ih => exact ih

/-- A loop from the end of input stays there. -/
theorem Turns.eq_nil {α : Type} {closer : TokenKind} {one : Reading α} {all : List α}
    (h : Turns closer one [] all rest) : rest = [] := by
  cases h with
  | stop => rfl
  | step hgo => exact absurd (.inr rfl) hgo

/-- Statements up to a closing token have no open block before it, and open ones only before the end of
input. -/
theorem surplus_of_turns (hnested : Closing nested) {closer : TokenKind} {statements : List Node}
    (hstream : stream.Unended) (h : Turns closer (statement nested) stream statements rest) :
    (rest ≠ [] → surplus stream = surplus rest) ∧ (rest = [] → 0 ≤ surplus stream) := by
  induction h with
  | stop => exact ⟨fun _ => rfl, fun hnil => hnil ▸ Int.le_refl 0⟩
  | @step stream mid rest thing more hgo hone hturns ih =>
    have hmid := hstream.of_suffix (Reading.suffix_of_run hone)
    obtain ⟨hclosed, hopened⟩ := ih hmid.advance
    have hfirst := closes_statement hnested hstream hone
    by_cases hnil : mid = []
    · -- Nothing is left for further statements.
      subst hnil
      have hrest := hturns.eq_nil
      exact ⟨fun hne => absurd hrest hne, fun _ => Int.le_of_lt (hfirst.opened rfl)⟩
    · rw [hfirst.closed hnil]
      exact ⟨hclosed, hopened⟩

theorem closes_blockStatement (hnested : Closing nested) (hstream : stream.Unended)
    (hcur : stream.cur.kind = .lbrace) (h : (blockStatement nested).run stream = .done node rest) :
    Closes stream rest := by
  obtain ⟨statements, hturns, rfl⟩ := run_blockStatement_eq_done.mp h
  obtain ⟨hclosed, hopened⟩ := surplus_of_turns hnested hstream.advance hturns
  have hopen : surplus stream = surplus stream.advance + 1 := by
    rw [eq_cons_of_cur stream (by simp [hcur])]
    simp [surplus, openingBraces_cons, closingBraces_cons, hcur]
    omega
  refine ⟨fun hrest => ?_, fun hrest => ?_⟩
  · have hunended : rest.Unended := hstream.of_suffix (Reading.suffix_of_run h)
    have hclose := hturns.stops.resolve_right fun heof => hrest (hunended.eq_nil heof)
    have hbrace : surplus rest = surplus rest.advance - 1 := by
      rw [eq_cons_of_cur rest (by simp [hclose])]
      simp [surplus, openingBraces_cons, closingBraces_cons, hclose]
      omega
    have := hclosed hrest
    omega
  · have := hopened hrest
    omega

/-- A list in parentheses whose members close their blocks, each from the token after the one that is
current before it. -/
theorem closes_parenthesized {item : Reading Node} {all : List Node}
    (hitem : ∀ {stream rest : TokenStream} {member : Node}, stream.Unended →
      item.run stream = .done member rest → Closes stream.advance rest)
    (hstream : stream.Unended) (hcur : NoBrace stream.cur.kind)
    (h : (parenthesized item).run stream = .done all rest) : Closes stream rest := by
  rcases run_parenthesized_eq_done.mp h with ⟨hempty, -, rfl⟩ |
    ⟨-, first, more, mid, last, hfirst, hmembers, hclose, -, rfl⟩
  · refine .cons hcur (.single ?_ ?_) <;> rw [cur_advance, hempty] <;> decide
  · have hmid := hstream.of_suffix (Reading.suffix_of_run hfirst)
    have hbefore := Closes.cons hcur (hitem hstream hfirst)
    suffices hmore : Closes stream last from hmore.expected hclose (by decide) (by decide)
    clear hfirst hclose h
    induction hmembers with
    | stop => exact hbefore
    | @step start next last member more hcomma hmember _ ih =>
      have hstart := hmid.advance
      refine ih (hstart.of_suffix (Reading.suffix_of_run hmember)) ?_
      refine hbefore.trans (ne_nil_of_peek (by simp [hcomma])) (.cons ?_ (hitem hstart hmember))
      rw [cur_advance, hcomma]
      decide

theorem closes_functionParameters {parameters : List Node} (hstream : stream.Unended)
    (hcur : NoBrace stream.cur.kind) (h : functionParameters.run stream = .done parameters rest) :
    Closes stream rest := by
  refine closes_parenthesized (fun _ hitem => ?_) hstream hcur h
  obtain ⟨hname, -, rfl⟩ := run_parameter_eq_done.mp hitem
  refine .single ?_ ?_ <;> rw [cur_advance, hname] <;> decide

theorem closes_callArguments (hnested : Closing nested) {arguments : List Node}
    (hstream : stream.Unended) (hcur : NoBrace stream.cur.kind)
    (h : (callArguments nested).run stream = .done arguments rest) : Closes stream rest := by
  refine closes_parenthesized (fun hstart hitem => ?_) hstream hcur h
  rw [Reading.run_bind_advance] at hitem
  exact hnested hstart.advance hitem

theorem closes_callExpression (hnested : Closing nested) (hstream : stream.Unended)
    (hcur : NoBrace stream.cur.kind)
    (h : (callExpression nested left).run stream = .done node rest) : Closes stream rest := by
  obtain ⟨arguments, harguments, -⟩ := run_callExpression_eq_done.mp h
  exact closes_callArguments hnested hstream hcur harguments

theorem closes_prefixExpression (hnested : Closing nested) (hstream : stream.Unended)
    (hcur : NoBrace stream.cur.kind) (h : (prefixExpression nested).run stream = .done node rest) :
    Closes stream rest := by
  obtain ⟨right, hright, -⟩ := run_prefixExpression_eq_done.mp h
  exact .cons hcur (hnested hstream.advance hright)

theorem closes_infixExpression (hnested : Closing nested) (hstream : stream.Unended)
    (hcur : NoBrace stream.cur.kind) (h : (infixExpression nested left).run stream = .done node rest) :
    Closes stream rest := by
  obtain ⟨right, hright, -⟩ := run_infixExpression_eq_done.mp h
  exact .cons hcur (hnested hstream.advance hright)

theorem closes_groupedExpression (hnested : Closing nested) (hstream : stream.Unended)
    (hcur : NoBrace stream.cur.kind) (h : (groupedExpression nested).run stream = .done node rest) :
    Closes stream rest := by
  obtain ⟨mid, hinner, hclose, rfl⟩ := run_groupedExpression_eq_done.mp h
  exact (Closes.cons hcur (hnested hstream.advance hinner)).expected hclose (by decide) (by decide)

theorem closes_branches (hnested : Closing nested) {consequence : Node} {alternative : Option Node}
    (hstream : stream.Unended) (hcur : stream.cur.kind = .lbrace)
    (h : BranchesFrom nested stream consequence alternative rest) : Closes stream rest := by
  cases h with
  | one hblock => exact closes_blockStatement hnested hstream hcur hblock
  | two hblock helse hbrace halternative =>
    rename_i mid alternative
    have hmid := hstream.of_suffix (Reading.suffix_of_run hblock)
    have hsecond := closes_blockStatement hnested hmid.advance.advance hbrace halternative
    refine (closes_blockStatement hnested hstream hcur hblock).trans
      (ne_nil_of_peek (by simp [helse])) (.cons ?_ hsecond)
    rw [cur_advance, helse]
    decide

theorem closes_ifExpression (hnested : Closing nested) (hstream : stream.Unended)
    (hcur : NoBrace stream.cur.kind) (h : (ifExpression nested).run stream = .done node rest) :
    Closes stream rest := by
  obtain ⟨hopen, condition, mid, hcondition, hclose, hbrace, consequence, alternative, hend, -⟩ :=
    run_ifExpression_eq_done.mp h
  have hmid := hstream.advance.advance.of_suffix (Reading.suffix_of_run hcondition)
  have hfirst : Closes stream mid.advance := by
    refine (Closes.cons hcur (.cons ?_ (hnested hstream.advance.advance hcondition))).expected hclose
      (by decide) (by decide)
    rw [cur_advance, hopen]
    decide
  exact hfirst.trans (ne_nil_of_peek (by simp [hbrace]))
    (closes_branches hnested hmid.advance.advance hbrace hend)

theorem closes_functionLiteral (hnested : Closing nested) (hstream : stream.Unended)
    (hcur : NoBrace stream.cur.kind) (h : (functionLiteral nested).run stream = .done node rest) :
    Closes stream rest := by
  obtain ⟨hopen, parameters, mid, hparameters, hbrace, body, hbody, -⟩ :=
    run_functionLiteral_eq_done.mp h
  have hmid := hstream.advance.of_suffix (Reading.suffix_of_run hparameters)
  refine (Closes.cons hcur (closes_functionParameters hstream.advance ?_ hparameters)).trans
    (ne_nil_of_peek (by simp [hbrace])) (closes_blockStatement hnested hmid.advance hbrace hbody)
  rw [cur_advance, hopen]
  decide

/-- A token that starts an expression is neither a brace nor the end of input. -/
theorem noBrace_of_prefixRule {kind : TokenKind} {rule : PrefixRule}
    (h : Rules.standard.prefixRule? kind = some rule) : NoBrace kind ∧ kind ≠ .eof := by
  cases kind <;> first | decide | simp [Rules.standard] at h

/-- A token that goes on with an expression is no brace. -/
theorem noBrace_of_infixRule {kind : TokenKind} {rule : InfixRule}
    (h : Rules.standard.infixRule? kind = some rule) : NoBrace kind := by
  cases kind <;> first | decide | simp [Rules.standard] at h

theorem closes_operand (hnested : Closing nested) (hstream : stream.Unended)
    (h : (operand .standard nested).run stream = .done node rest) : Closes stream rest := by
  obtain ⟨rule, hrule, hrun⟩ := run_operand_eq_done.mp h
  obtain ⟨hcur, heof⟩ := noBrace_of_prefixRule hrule
  cases rule with
  | identifier =>
    obtain ⟨-, rfl⟩ := Outcome.done.inj ((run_identifier stream).symm.trans hrun)
    exact .single heof hcur
  | integer =>
    obtain ⟨value, -, -, -, rfl⟩ := run_integerLiteral_eq_done.mp hrun
    exact .single heof hcur
  | boolean =>
    obtain ⟨-, rfl⟩ := Outcome.done.inj ((run_boolean stream).symm.trans hrun)
    exact .single heof hcur
  | operator => exact closes_prefixExpression hnested hstream hcur hrun
  | group => exact closes_groupedExpression hnested hstream hcur hrun
  | conditional => exact closes_ifExpression hnested hstream hcur hrun
  | function => exact closes_functionLiteral hnested hstream hcur hrun

theorem closes_applyInfix (hnested : Closing nested) {rule : InfixRule} (hstream : stream.Unended)
    (hcur : NoBrace stream.cur.kind) (h : (applyInfix nested rule left).run stream = .done node rest) :
    Closes stream rest := by
  cases rule with
  | operator => exact closes_infixExpression hnested hstream hcur h
  | call => exact closes_callExpression hnested hstream hcur h

/-- Going on from an expression that closes its blocks. -/
theorem closes_continued (hnested : Closing nested) {precedence : Precedence} {start : TokenStream}
    (hstream : stream.Unended) (hbefore : Closes start stream)
    (h : (continued .standard nested precedence left).run stream = .done node rest) :
    Closes start rest := by
  induction hlen : stream.length using Nat.strongRecOn generalizing stream left with
  | ind len ih =>
    rw [run_continued] at h
    split at h
    · rename_i hbinds
      have hpeek := Precedence.ne_eof_of_lt hbinds
      have hshort := length_advance_lt_of_peek hpeek
      split at h
      · simp at h
      · rename_i rule hrule
        split at h
        · rename_i longer mid hlonger
          have hsuffix := Reading.suffix_of_run hlonger
          have hlt : mid.length < len := hlen ▸ Nat.lt_of_le_of_lt hsuffix.length_le hshort
          have hturn := closes_applyInfix hnested hstream.advance
            (by rw [cur_advance]; exact noBrace_of_infixRule hrule) hlonger
          exact ih mid.length hlt (hstream.advance.of_suffix hsuffix)
            (hbefore.trans (ne_nil_of_peek hpeek) hturn) h rfl
        · simp at h
    · obtain ⟨-, rfl⟩ := Outcome.done.inj h
      exact hbefore

/-- Expressions close their blocks at every number of levels. -/
theorem closing_expression (levels : Nat) : Closing (expression .standard levels) := by
  induction levels with
  | zero =>
    intro precedence stream rest node _ h
    simp [expression] at h
  | succ levels ih =>
    intro precedence stream rest node hstream h
    obtain ⟨left, mid, hleft, hrest⟩ := run_expressionFrom_eq_done.mp h
    have hmid := hstream.of_suffix (Reading.suffix_of_run hleft)
    exact closes_continued ih hmid (closes_operand ih hstream hleft) hrest

end Grammar

end Monkey
