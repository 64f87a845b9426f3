import Monkey.Parser.Call
import Monkey.Proofs.CursorRequests
import Monkey.Proofs.Run

/-!
# Where the window of a parser stands

A window on a text stands at an index of its tokens: the current token is the one at the index, the next
token the one after it, and the lexer is where it is after all tokens up to that. From the last token on
every further token is the end of input.

A method on a window and a reading of the tokens from its index on simulate each other if they end alike,
with the same value or failure and at the same index, which is never lower than the first one. Whatever
is put together from such pieces is of this kind again.
-/

namespace Monkey

/-- The tokens of a text from an index on. -/
def ahead (source : String) (k : Nat) : TokenStream := (tokens source.toList).drop k

/-- The token at an index of a text, which from its end on is the end of input. -/
def tokenAt (source : String) (k : Nat) : Token := (tokens source.toList).getD k .endOfInput

theorem tokenAt_mem_tokenize (source : String) (k : Nat) : tokenAt source k ∈ tokenize source := by
  rw [tokenAt, tokenize, List.getD_eq_getElem?_getD, List.mem_append, List.mem_singleton]
  cases hget : (tokens source.toList)[k]? with
  | none => exact .inr rfl
  | some token => exact .inl (List.mem_of_getElem? hget)

/-- The lexer of a text after its first tokens. -/
def lexerAfter (source : String) (count : Nat) : Cursor :=
  (fun cursor => cursor.nextToken.2)^[count] (.ofSource source)

variable {source : String} {k : Nat} {window : Window}

theorem cur_ahead (source : String) (k : Nat) : (ahead source k).cur = tokenAt source k := by
  rw [TokenStream.cur, ahead, tokenAt, List.headD_eq_head?_getD, List.head?_drop, List.getD_eq_getElem?_getD]

theorem advance_ahead (source : String) (k : Nat) : (ahead source k).advance = ahead source (k + 1) := by
  rw [TokenStream.advance, ahead, List.tail_drop]
  rfl

theorem peek_ahead (source : String) (k : Nat) : (ahead source k).peek = tokenAt source (k + 1) := by
  rw [← TokenStream.cur_advance, advance_ahead, cur_ahead]

theorem lexerAfter_succ (source : String) (count : Nat) :
    lexerAfter source (count + 1) = (lexerAfter source count).nextToken.2 :=
  Function.iterate_succ_apply' _ _ _

/-- What the lexer has left are the tokens from the count of those that it has given on. -/
theorem tokens_lexerAfter (source : String) (count : Nat) :
    (lexerAfter source count).Valid ∧
      tokens (lexerAfter source count).remaining = ahead source count := by
  induction count with
  | zero => exact ⟨Cursor.valid_ofSource source, congrArg tokens (Cursor.remaining_ofSource source)⟩
  | succ count ih =>
    obtain ⟨hvalid, htokens⟩ := ih
    rw [lexerAfter_succ]
    refine ⟨hvalid.nextToken.1, ?_⟩
    rw [hvalid.nextToken_eq.2, Cursor.tokens_firstToken_snd, htokens]
    exact advance_ahead source count

/-- The next token that the lexer gives is the one at the count of those that it has given. -/
theorem nextToken_lexerAfter (source : String) (count : Nat) :
    (lexerAfter source count).nextToken.1 = tokenAt source count := by
  obtain ⟨hvalid, htokens⟩ := tokens_lexerAfter source count
  rw [hvalid.nextToken_eq.1, Cursor.firstToken_fst, htokens]
  exact cur_ahead source count

namespace Window

/-- A window stands at an index of a text. -/
structure At (source : String) (k : Nat) (window : Window) : Prop where
  cur_eq : window.cur = tokenAt source k
  peek_eq : window.peek = tokenAt source (k + 1)
  lexer_eq : window.lexer = lexerAfter source (k + 2)

/-- A new window stands at the first token. -/
theorem at_ofSource (source : String) : (ofSource source).At source 0 where
  cur_eq := nextToken_lexerAfter source 0
  peek_eq := nextToken_lexerAfter source 1
  lexer_eq := rfl

/-- Going on raises the index by one. -/
theorem At.nextToken (h : window.At source k) : window.nextToken.At source (k + 1) where
  cur_eq := h.peek_eq
  peek_eq := by
    change window.lexer.nextToken.1 = _
    rw [h.lexer_eq, nextToken_lexerAfter]
  lexer_eq := by
    change window.lexer.nextToken.2 = _
    rw [h.lexer_eq, ← lexerAfter_succ]

theorem At.moved (h : window.At source k) (count : Nat) : (window.moved count).At source (k + count) := by
  induction count generalizing k window with
  | zero => exact h
  | succ count ih => exact Nat.succ_add_eq_add_succ k count ▸ ih h.nextToken

end Window

namespace Parser

section

variable {α β : Type} {method : Method α} {reading : Reading α}

/-- A method and a reading have ended alike, at an index that is not lower than the given one. -/
inductive Alike (source : String) (k : Nat) : Ending α → Outcome α → Prop
  | done {value : α} {after : Window} {k' : Nat} :
      k ≤ k' → after.At source k' → Alike source k (.done value after) (.done value (ahead source k'))
  | failed {failure : ParseFailure} {after : Window} {k' : Nat} :
      k ≤ k' → after.At source k' →
      Alike source k (.failed failure after) (.failed failure (ahead source k'))

/-- A method does on a window what a reading does on the tokens from the index of the window on. -/
def Simulates (method : Method α) (reading : Reading α) : Prop :=
  ∀ (source : String) (k : Nat) (window : Window), window.At source k →
    Alike source k (method.run window) (reading.run (ahead source k))

/-- What does not go below an index does not go below a lower one. -/
theorem Alike.mono {k' : Nat} {ending : Ending α} {outcome : Outcome α}
    (h : Alike source k' ending outcome) (hle : k ≤ k') : Alike source k ending outcome := by
  cases h with
  | done hstep hat => exact .done (hle.trans hstep) hat
  | failed hstep hat => exact .failed (hle.trans hstep) hat

/-- A window that a method has left stands at an index again. -/
theorem Alike.exists_at {ending : Ending α} {outcome : Outcome α} (h : Alike source k ending outcome) :
    ∃ k', k ≤ k' ∧ ending.window.At source k' := by
  cases h with
  | done hstep hat | failed hstep hat => exact ⟨_, hstep, hat⟩

/-- If a method has succeeded, then so has the reading, and it has left what is ahead of the window. -/
theorem Alike.of_done {value : α} {after : Window} {outcome : Outcome α}
    (h : Alike source k (.done value after) outcome) :
    ∃ k', k ≤ k' ∧ after.At source k' ∧ outcome = .done value (ahead source k') := by
  cases h with
  | done hstep hat => exact ⟨_, hstep, hat, rfl⟩

/-! ## Single steps -/

theorem simulates_give (value : α) : Simulates (.give value) (.give value) :=
  fun _ _ _ hat => .done (Nat.le_refl _) hat

theorem simulates_fail (failure : ParseFailure) :
    Simulates (.fail failure : Method α) (.fail failure) :=
  fun _ _ _ hat => .failed (Nat.le_refl _) hat

theorem Simulates.bind {following : α → Method β} {onward : α → Reading β}
    (h : Simulates method reading) (hfollowing : ∀ value, Simulates (following value) (onward value)) :
    Simulates (method >>= following) (reading >>= onward) := by
  intro source k window hat
  have hfirst := h source k window hat
  rw [Method.run_bind, Reading.run_bind]
  generalize method.run window = ending, reading.run (ahead source k) = outcome at hfirst ⊢
  cases hfirst with
  | done hstep hafter => exact (hfollowing _ _ _ _ hafter).mono hstep
  | failed hstep hafter => exact .failed hstep hafter

theorem simulates_current : Simulates .current .current := by
  intro source k window hat
  rw [Method.run_current, Reading.run_current, cur_ahead, hat.cur_eq]
  exact .done (Nat.le_refl k) hat

theorem simulates_upcoming : Simulates .upcoming .upcoming := by
  intro source k window hat
  rw [Method.run_upcoming, Reading.run_upcoming, peek_ahead, hat.peek_eq]
  exact .done (Nat.le_refl k) hat

theorem simulates_advance : Simulates .advance .advance := by
  intro source k window hat
  rw [Method.run_advance, Reading.run_advance, advance_ahead]
  exact .done (Nat.le_succ k) hat.nextToken

/-- Without an end of the stack a call makes no difference, and neither does room for an operation. -/
theorem Simulates.call (h : Simulates method reading) : Simulates (.call method) reading := h

theorem Simulates.room (h : Simulates method reading) (operation : Operation) :
    Simulates (do Method.room operation; method) reading := h

theorem Simulates.ite {p : Prop} [Decidable p] {other : Method α} {otherwise : Reading α}
    (h : Simulates method reading) (hother : Simulates other otherwise) :
    Simulates (if p then method else other) (if p then reading else otherwise) := by
  split
  · exact h
  · exact hother

theorem simulates_reject (error : SyntaxError) : Simulates (.reject error : Method α) (.reject error) :=
  (simulates_fail _).room .report

theorem simulates_expect (kind : TokenKind) : Simulates (.expect kind) (.expect kind) :=
  ((simulates_upcoming.bind fun _ => simulates_advance.ite (simulates_reject _)).room .test).call

theorem simulates_skip (kind : TokenKind) : Simulates (.skip kind) (.skip kind) :=
  ((simulates_upcoming.bind fun _ => simulates_advance.ite (simulates_give ())).room .test).call

/-! ## Loops -/

/-- A token other than the end of input is at an index of the text. -/
theorem lt_length_of_tokenAt (h : (tokenAt source k).kind ≠ .eof) : k < (tokens source.toList).length := by
  by_contra hge
  rw [tokenAt, List.getD_eq_getElem?_getD, List.getElem?_eq_none (Nat.le_of_not_lt hge)] at h
  exact h rfl

theorem simulates_membersAfter (h : Simulates method reading) (read : List α) :
    Simulates (membersAfter method read) (Grammar.membersAfter reading read) := by
  intro source k window hat
  -- The two loops have bounds of their own. What they share is the number of tokens ahead.
  induction hleft : (tokens source.toList).length - k using Nat.strongRecOn
    generalizing k window read with
  | ind left ih =>
    have hitem := h source (k + 1) window.nextToken hat.nextToken
    unfold Reading.run
    rw [run_membersAfter, Grammar.membersAfter_eq, peek_ahead, hat.peek_eq]
    by_cases hcomma : (tokenAt source (k + 1)).kind = .comma
    · have hlt : k + 1 < (tokens source.toList).length := lt_length_of_tokenAt (by simp [hcomma])
      rw [if_pos hcomma, if_pos hcomma, advance_ahead, Method.run_bind]
      generalize method.run window.nextToken = ending, reading.run (ahead source (k + 1)) = outcome
        at hitem ⊢
      cases hitem with
      | @done member after k' hstep hafter =>
        have hnext := ih _ (by omega) (member :: read) k' after hafter rfl
        exact hnext.mono (by omega)
      | failed hstep hafter => exact .failed (by omega) hafter
    · rw [if_neg hcomma, if_neg hcomma]
      exact .done (Nat.le_refl k) hat

theorem Simulates.parenthesized (h : Simulates method reading) :
    Simulates (parenthesized method) (Grammar.parenthesized reading) :=
  .room (simulates_upcoming.bind fun _ => (simulates_advance.bind fun _ => simulates_give []).ite
    (h.bind fun first => .room ((simulates_membersAfter h [first]).bind fun all =>
      (simulates_expect .rparen).bind fun _ => simulates_give all) .list)) .test

theorem simulates_untilAfter (closer : TokenKind) (h : Simulates method reading) (read : List α) :
    Simulates (untilAfter closer method read) (Grammar.untilAfter closer reading read) := by
  intro source k window hat
  induction hleft : (tokens source.toList).length - k using Nat.strongRecOn
    generalizing k window read with
  | ind left ih =>
    have hone := h source k window hat
    unfold Reading.run
    rw [run_untilAfter, Grammar.untilAfter_eq, cur_ahead, hat.cur_eq]
    by_cases hend : (tokenAt source k).kind = closer ∨ (tokenAt source k).kind = .eof
    · rw [if_pos hend, if_pos hend]
      exact .done (Nat.le_refl k) hat
    · have hlt : k < (tokens source.toList).length :=
        lt_length_of_tokenAt fun heof => hend (.inr heof)
      rw [if_neg hend, if_neg hend, Method.run_bind]
      generalize method.run window = ending, reading.run (ahead source k) = outcome at hone ⊢
      cases hone with
      | @done thing after k' hstep hafter =>
        have hnext := ih _ (by omega) (thing :: read) (k' + 1) after.nextToken hafter.nextToken rfl
        rw [← advance_ahead] at hnext
        dsimp only
        rw [Method.run_bind, Method.run_advance]
        exact hnext.mono (by omega)
      | failed hstep hafter => exact .failed hstep hafter

end

/-! ## Constructs -/

variable {nested : Nested} {inner : Grammar.Nested} {rules : Rules}

/-- A construct ends with its node. -/
theorem simulates_make (node : Node) : Simulates (make node) (.give node) := (simulates_give node).room .node

theorem simulates_name : Simulates name Grammar.identifier :=
  simulates_current.bind fun _ => simulates_make _

theorem simulates_identifier : Simulates identifier Grammar.identifier := simulates_name.call

theorem simulates_integerLiteral : Simulates integerLiteral Grammar.integerLiteral := by
  refine (simulates_current.bind fun token => .room ?_ .number).call
  cases Text.Decimal.read token.literal with
  | error error => exact simulates_fail _
  | ok value => exact (simulates_reject _).ite (simulates_make _)

theorem simulates_boolean : Simulates boolean Grammar.boolean :=
  (simulates_current.bind fun _ => .room (simulates_make _) .test).call

theorem simulates_functionParameters : Simulates functionParameters Grammar.functionParameters :=
  (Simulates.parenthesized ((simulates_expect .ident).bind fun _ => simulates_name)).call

/-- The end of a statement. -/
theorem simulates_end (node : Node) :
    Simulates (do Method.skip .semicolon; make node) (do Reading.skip .semicolon; Reading.give node) :=
  (simulates_skip .semicolon).bind fun _ => simulates_make node

section

variable (h : ∀ precedence, Simulates (nested precedence) (inner precedence))

include h

theorem simulates_letStatement : Simulates (letStatement nested) (Grammar.letStatement inner) :=
  (simulates_current.bind fun _ => (simulates_expect .ident).bind fun _ =>
    simulates_name.bind fun _ => (simulates_expect .assign).bind fun _ =>
      simulates_advance.bind fun _ => (h .lowest).bind fun _ => simulates_end _).call

theorem simulates_returnStatement :
    Simulates (returnStatement nested) (Grammar.returnStatement inner) :=
  (simulates_current.bind fun _ => simulates_advance.bind fun _ => (h .lowest).bind fun _ =>
    simulates_end _).call

theorem simulates_expressionStatement :
    Simulates (expressionStatement nested) (Grammar.expressionStatement inner) :=
  (simulates_current.bind fun _ => (h .lowest).bind fun _ => simulates_end _).call

theorem simulates_statement : Simulates (statement nested) (Grammar.statement inner) := by
  refine (Simulates.room (simulates_current.bind fun token => ?_) .test).call
  cases token.kind
  case kwLet => exact simulates_letStatement h
  case kwReturn => exact simulates_returnStatement h
  all_goals exact simulates_expressionStatement h

theorem simulates_blockStatement : Simulates (blockStatement nested) (Grammar.blockStatement inner) :=
  (simulates_current.bind fun _ => simulates_advance.bind fun _ =>
    (simulates_untilAfter .rbrace (simulates_statement h) []).bind fun _ =>
      .room (simulates_make _) .list).call

theorem simulates_program : Simulates (program nested) (Grammar.program inner) :=
  (simulates_untilAfter .eof (simulates_statement h) []).bind fun _ =>
    simulates_current.bind fun _ => simulates_give _

theorem simulates_prefixExpression :
    Simulates (prefixExpression nested) (Grammar.prefixExpression inner) :=
  (simulates_current.bind fun _ => simulates_advance.bind fun _ => (h .prefixOp).bind fun _ =>
    simulates_make _).call

theorem simulates_infixExpression (left : Node) :
    Simulates (infixExpression nested left) (Grammar.infixExpression inner left) :=
  (simulates_current.bind fun _ => .room (simulates_advance.bind fun _ => (h _).bind fun _ =>
    simulates_make _) .precedence).call

theorem simulates_groupedExpression :
    Simulates (groupedExpression nested) (Grammar.groupedExpression inner) :=
  (simulates_advance.bind fun _ => (h .lowest).bind fun _ => (simulates_expect .rparen).bind fun _ =>
    simulates_give _).call

theorem simulates_ifExpression : Simulates (ifExpression nested) (Grammar.ifExpression inner) :=
  (simulates_current.bind fun _ => (simulates_expect .lparen).bind fun _ =>
    simulates_advance.bind fun _ => (h .lowest).bind fun _ => (simulates_expect .rparen).bind fun _ =>
      (simulates_expect .lbrace).bind fun _ => (simulates_blockStatement h).bind fun _ =>
        .room (simulates_upcoming.bind fun _ => Simulates.ite
          (simulates_advance.bind fun _ => (simulates_expect .lbrace).bind fun _ =>
            (simulates_blockStatement h).bind fun _ => simulates_make _)
          (simulates_make _)) .test).call

theorem simulates_functionLiteral :
    Simulates (functionLiteral nested) (Grammar.functionLiteral inner) :=
  (simulates_current.bind fun _ => (simulates_expect .lparen).bind fun _ =>
    simulates_functionParameters.bind fun _ => (simulates_expect .lbrace).bind fun _ =>
      (simulates_blockStatement h).bind fun _ => simulates_make _).call

theorem simulates_callArguments : Simulates (callArguments nested) (Grammar.callArguments inner) :=
  (Simulates.parenthesized (simulates_advance.bind fun _ => h .lowest)).call

theorem simulates_callExpression (callee : Node) :
    Simulates (callExpression nested callee) (Grammar.callExpression inner callee) :=
  (simulates_current.bind fun _ => (simulates_callArguments h).bind fun _ => simulates_make _).call

theorem simulates_applyPrefix (rule : PrefixRule) :
    Simulates (applyPrefix nested rule) (Grammar.applyPrefix inner rule) := by
  cases rule with
  | identifier => exact simulates_identifier
  | integer => exact simulates_integerLiteral
  | boolean => exact simulates_boolean
  | operator => exact simulates_prefixExpression h
  | group => exact simulates_groupedExpression h
  | conditional => exact simulates_ifExpression h
  | function => exact simulates_functionLiteral h

theorem simulates_applyInfix (rule : InfixRule) (left : Node) :
    Simulates (applyInfix nested rule left) (Grammar.applyInfix inner rule left) := by
  cases rule with
  | operator => exact simulates_infixExpression h left
  | call => exact simulates_callExpression h left

theorem simulates_operand : Simulates (operand rules nested) (Grammar.operand rules inner) := by
  refine simulates_current.bind fun token => .room ?_ .rule
  cases rules.prefixRule? token.kind with
  | none => exact simulates_reject _
  | some rule => exact simulates_applyPrefix h rule

theorem simulates_continuedFrom (precedence : Precedence) (left : Node) :
    Simulates (continuedFrom rules nested precedence left)
      (Grammar.continued rules inner precedence left) := by
  intro source k window hat
  induction hleft : (tokens source.toList).length - k using Nat.strongRecOn
    generalizing k window left with
  | ind remaining ih =>
    rw [run_continuedFrom, Grammar.run_continued, peek_ahead, hat.peek_eq, advance_ahead]
    by_cases hbinds : precedence < .ofKind (tokenAt source (k + 1)).kind
    · rw [if_pos hbinds, if_pos hbinds]
      have hlt : k + 1 < (tokens source.toList).length := lt_length_of_tokenAt
        (Precedence.ne_eof_of_lt hbinds)
      cases rules.infixRule? (tokenAt source (k + 1)).kind with
      | none => exact .failed (Nat.le_refl k) hat
      | some rule =>
        dsimp only
        rw [Method.run_bind]
        have hturn := simulates_applyInfix h rule left source (k + 1) window.nextToken hat.nextToken
        generalize (applyInfix nested rule left).run window.nextToken = ending,
          (Grammar.applyInfix inner rule left).run (ahead source (k + 1)) = outcome at hturn ⊢
        cases hturn with
        | @done longer after k' hstep hafter =>
          have hnext := ih _ (by omega) longer k' after hafter rfl
          exact hnext.mono (by omega)
        | failed hstep hafter => exact .failed (by omega) hafter
    · rw [if_neg hbinds, if_neg hbinds]
      exact .done (Nat.le_refl k) hat

end

/-- Expressions are read alike at every number of levels. -/
theorem simulates_expression (rules : Rules) (levels : Nat) (precedence : Precedence) :
    Simulates (expression rules levels precedence) (Grammar.expression rules levels precedence) := by
  induction levels generalizing precedence with
  | zero => exact simulates_current.bind fun _ => simulates_fail _
  | succ levels ih =>
    exact ((simulates_operand ih).bind fun left => simulates_continuedFrom ih precedence left).call

/-- The program of a text is the one that is read through a window on the text. -/
theorem parse_eq_result (source : String) (levels : Nat) :
    parse source levels = ((program (expression .standard levels)).run (.ofSource source)).result := by
  have halike := simulates_program (simulates_expression .standard levels) source 0 _
    (Window.at_ofSource source)
  change Outcome.result ((Grammar.program _).run (ahead source 0)) = _
  generalize (Grammar.program _).run (ahead source 0) = outcome,
    (program _).run (Window.ofSource source) = ending at halike ⊢
  cases halike with
  | done | failed => rfl

/-- The reading for a construct. -/
def Construct.reading (rules : Rules) (levels : Nat) (construct : Construct) : Reading Value :=
  let nested := Grammar.expression rules levels
  match construct with
  | program => do Reading.give (.tree (← Grammar.program nested))
  | statement => do Reading.give (.tree (← Grammar.statement nested))
  | letStatement => do Reading.give (.tree (← Grammar.letStatement nested))
  | returnStatement => do Reading.give (.tree (← Grammar.returnStatement nested))
  | expressionStatement => do Reading.give (.tree (← Grammar.expressionStatement nested))
  | blockStatement => do Reading.give (.tree (← Grammar.blockStatement nested))
  | expression precedence => do Reading.give (.tree (← nested precedence))
  | identifier => do Reading.give (.tree (← Grammar.identifier))
  | integerLiteral => do Reading.give (.tree (← Grammar.integerLiteral))
  | boolean => do Reading.give (.tree (← Grammar.boolean))
  | prefixExpression => do Reading.give (.tree (← Grammar.prefixExpression nested))
  | infixExpression left => do Reading.give (.tree (← Grammar.infixExpression nested left))
  | groupedExpression => do Reading.give (.tree (← Grammar.groupedExpression nested))
  | ifExpression => do Reading.give (.tree (← Grammar.ifExpression nested))
  | functionLiteral => do Reading.give (.tree (← Grammar.functionLiteral nested))
  | functionParameters => do Reading.give (.trees (← Grammar.functionParameters))
  | callExpression callee => do Reading.give (.tree (← Grammar.callExpression nested callee))
  | callArguments => do Reading.give (.trees (← Grammar.callArguments nested))

theorem simulates_construct (rules : Rules) (levels : Nat) (construct : Construct) :
    Simulates (construct.method rules levels) (construct.reading rules levels) := by
  have h := simulates_expression rules levels
  cases construct with
  | program => exact (simulates_program h).bind fun _ => simulates_give _
  | statement => exact (simulates_statement h).bind fun _ => simulates_give _
  | letStatement => exact (simulates_letStatement h).bind fun _ => simulates_give _
  | returnStatement => exact (simulates_returnStatement h).bind fun _ => simulates_give _
  | expressionStatement => exact (simulates_expressionStatement h).bind fun _ => simulates_give _
  | blockStatement => exact (simulates_blockStatement h).bind fun _ => simulates_give _
  | expression precedence => exact (h precedence).bind fun _ => simulates_give _
  | identifier => exact simulates_identifier.bind fun _ => simulates_give _
  | integerLiteral => exact simulates_integerLiteral.bind fun _ => simulates_give _
  | boolean => exact simulates_boolean.bind fun _ => simulates_give _
  | prefixExpression => exact (simulates_prefixExpression h).bind fun _ => simulates_give _
  | infixExpression left => exact (simulates_infixExpression h left).bind fun _ => simulates_give _
  | groupedExpression => exact (simulates_groupedExpression h).bind fun _ => simulates_give _
  | ifExpression => exact (simulates_ifExpression h).bind fun _ => simulates_give _
  | functionLiteral => exact (simulates_functionLiteral h).bind fun _ => simulates_give _
  | functionParameters => exact simulates_functionParameters.bind fun _ => simulates_give _
  | callExpression callee => exact (simulates_callExpression h callee).bind fun _ => simulates_give _
  | callArguments => exact (simulates_callArguments h).bind fun _ => simulates_give _

/-- The reading for a call. -/
def Call.reading (rules : Rules) (levels : Nat) : Call → Reading Value
  | nextToken => do
    Reading.advance
    Reading.give .nothing
  | curTokenIs kind => do Reading.give (.flag (decide ((← Reading.current).kind = kind)))
  | peekTokenIs kind => do Reading.give (.flag (decide ((← Reading.upcoming).kind = kind)))
  | expectPeek kind => do
    Reading.expect kind
    Reading.give .nothing
  | peekPrecedence => do Reading.give (.precedence (.ofKind (← Reading.upcoming).kind))
  | curPrecedence => do Reading.give (.precedence (.ofKind (← Reading.current).kind))
  | parse construct => construct.reading rules levels

theorem simulates_call (rules : Rules) (levels : Nat) (call : Call) :
    Simulates (call.method rules levels) (call.reading rules levels) := by
  cases call with
  | nextToken => exact simulates_advance.bind fun _ => simulates_give _
  | curTokenIs kind => exact simulates_current.bind fun _ => simulates_give _
  | peekTokenIs kind => exact simulates_upcoming.bind fun _ => simulates_give _
  | expectPeek kind => exact (simulates_expect kind).bind fun _ => simulates_give _
  | peekPrecedence => exact simulates_upcoming.bind fun _ => simulates_give _
  | curPrecedence => exact simulates_current.bind fun _ => simulates_give _
  | parse construct => exact simulates_construct rules levels construct

end Parser

end Monkey
