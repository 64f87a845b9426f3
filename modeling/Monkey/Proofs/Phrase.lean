import Monkey.Proofs.LastToken
import Monkey.Proofs.WindowIndex

/-!
# What a construct is made of

Each construct that can be read by itself is related to the tokens it is made of and to the tokens after
them, by the reference grammar. Where a construct could go on, as an expression does before an operator
and a conditional before `else`, the token after it does not go on with it.

A construct that is read from its first token on is of this form, with the token after the current one as
the first one that does not belong to it.
-/

namespace Monkey

/-- The construct that a rule reads. -/
def PrefixRule.construct : PrefixRule → Parser.Construct
  | identifier => .identifier
  | integer => .integerLiteral
  | boolean => .boolean
  | operator => .prefixExpression
  | group => .groupedExpression
  | conditional => .ifExpression
  | function => .functionLiteral

namespace Parser

open Monkey.Derivation TokenStream

/-- The kinds of token that a construct starts with. Where none is named, the choice of what to read is
made by the first token itself. -/
def Construct.StartsOn (kind : TokenKind) : Construct → Prop
  | program | statement | expressionStatement | expression _ => True
  | letStatement => kind = .kwLet
  | returnStatement => kind = .kwReturn
  | blockStatement => kind = .lbrace
  | identifier => kind = .ident
  | integerLiteral => kind = .int
  | boolean => kind = .kwTrue ∨ kind = .kwFalse
  | prefixExpression => kind = .bang ∨ kind = .minus
  | infixExpression _ => kind ∈ (Precedence.ofKind kind).operators
  | groupedExpression | functionParameters | callExpression _ | callArguments => kind = .lparen
  | ifExpression => kind = .kwIf
  | functionLiteral => kind = .kwFunction

/-- A construct, what is made of it, and the tokens after it. -/
inductive Phrase : Construct → List Token → Value → List Token → Prop
  | program {input : List Token} {statements : List Node} :
      Statements input statements [] →
      Phrase .program input (.tree (.program .endOfInput statements)) []
  | statement {input after : List Token} {node : Node} :
      Statement input node after → Phrase .statement input (.tree node) after
  | letStatement {t : Token} {input after : List Token} {node : Node} :
      t.kind = .kwLet → Statement (t :: input) node after →
      Phrase .letStatement (t :: input) (.tree node) after
  | returnStatement {t : Token} {input after : List Token} {node : Node} :
      t.kind = .kwReturn → Statement (t :: input) node after →
      Phrase .returnStatement (t :: input) (.tree node) after
  | expressionStatement {t : Token} {input mid after : List Token} {value : Node} :
      Expression .equals (t :: input) value mid → StatementEnd mid after →
      Phrase .expressionStatement (t :: input) (.tree (.expressionStatement t value)) after
  | blockStatement {input after : List Token} {node : Node} :
      Block input node after → Phrase .blockStatement input (.tree node) after
  | expression {precedence : Precedence} {input after : List Token} {node : Node} :
      precedence ≠ .call → Expression precedence.within input node after →
      ¬ precedence < .ofKind (TokenStream.cur after).kind →
      Phrase (.expression precedence) input (.tree node) after
  | operand {rule : PrefixRule} {input after : List Token} {value : Value} :
      Phrase rule.construct input value after → Phrase (.expression .call) input value after
  | identifier {t : Token} {after : List Token} :
      t.kind = .ident → Phrase .identifier (t :: after) (.tree (.identifier t t.literal)) after
  | integerLiteral {t : Token} {after : List Token} {value : Nat} :
      t.kind = .int → Text.Decimal.read t.literal = .ok value → value ≤ 2 ^ 63 - 1 →
      Phrase .integerLiteral (t :: after) (.tree (.integer t value)) after
  | boolean {t : Token} {after : List Token} :
      t.kind = .kwTrue ∨ t.kind = .kwFalse →
      Phrase .boolean (t :: after) (.tree (.boolean t (decide (t.kind = .kwTrue)))) after
  | prefixExpression {op : Token} {input after : List Token} {right : Node} :
      op.kind = .bang ∨ op.kind = .minus → Expression .prefixOp input right after →
      ¬ .prefixOp < Precedence.ofKind (TokenStream.cur after).kind →
      Phrase .prefixExpression (op :: input) (.tree (.prefixOp op op.literal right)) after
  | infixExpression {level : Precedence} {op : Token} {input after : List Token} {left right : Node} :
      op.kind ∈ level.operators → Expression level.tighter input right after →
      ¬ level < .ofKind (TokenStream.cur after).kind →
      Phrase (.infixExpression left) (op :: input) (.tree (.infixOp op left op.literal right)) after
  | groupedExpression {t close : Token} {input after : List Token} {inner : Node} :
      t.kind = .lparen → Expression .equals input inner (close :: after) → close.kind = .rparen →
      Phrase .groupedExpression (t :: input) (.tree inner) after
  | ifExpression {t : Token} {input after : List Token} {condition consequence : Node}
      {alternative : Option Node} :
      t.kind = .kwIf →
      Expression .call (t :: input) (.conditional t condition consequence alternative) after →
      (alternative = none → (TokenStream.cur after).kind ≠ .kwElse) →
      Phrase .ifExpression (t :: input) (.tree (.conditional t condition consequence alternative)) after
  | functionLiteral {t : Token} {input after : List Token} {parameters : List Node} {body : Node} :
      t.kind = .kwFunction → Expression .call (t :: input) (.function t parameters body) after →
      Phrase .functionLiteral (t :: input) (.tree (.function t parameters body)) after
  | functionParameters {t : Token} {input after : List Token} {parameters : List Node} :
      t.kind = .lparen → Parameters input parameters after →
      Phrase .functionParameters (t :: input) (.trees parameters) after
  | callExpression {t : Token} {input after : List Token} {callee : Node} {arguments : List Node} :
      t.kind = .lparen → Arguments input arguments after →
      Phrase (.callExpression callee) (t :: input) (.tree (.call t callee arguments)) after
  | callArguments {t : Token} {input after : List Token} {arguments : List Node} :
      t.kind = .lparen → Arguments input arguments after →
      Phrase .callArguments (t :: input) (.trees arguments) after

variable {nested : Grammar.Nested} {levels : Nat} {stream rest : TokenStream} {node left : Node}
  {construct : Construct} {value : Value}

/-! ## What is read is a phrase -/

/-- A reading that gives the value of another one, in a certain form. -/
theorem run_value_eq_done {α : Type} {reading : Reading α} {form : α → Value} :
    (do Reading.give (form (← reading)) : Reading Value).run stream = .done value rest ↔
      ∃ a, reading.run stream = .done a rest ∧ form a = value := by
  rw [Reading.run_bind_eq_done]
  constructor
  · rintro ⟨a, mid, hrun, hgive⟩
    obtain ⟨hvalue, rfl⟩ := Outcome.done.inj hgive
    exact ⟨a, hrun, hvalue⟩
  · rintro ⟨a, hrun, rfl⟩
    exact ⟨a, rest, hrun, rfl⟩

/-- No statement starts at the end of input. -/
theorem cur_ne_eof_of_run_statement (hnested : Grammar.Sound nested) (hstream : stream.Unended)
    (h : (Grammar.statement nested).run stream = .done node rest) : stream.cur.kind ≠ .eof := by
  intro heof
  rw [Grammar.run_statement, if_neg (by simp [heof]), if_neg (by simp [heof])] at h
  obtain ⟨expression, mid, hexpression, -, -⟩ := Grammar.run_expressionStatement_eq_done.mp h
  have hstarts := (hnested.lowest hstream hexpression).1.starts
  simp [heof, expressionStarters] at hstarts

theorem phrase_expressionStatement (hnested : Grammar.Sound nested) (hstream : stream.Unended)
    (h : (Grammar.expressionStatement nested).run stream = .done node rest) :
    Phrase .expressionStatement stream (.tree node) rest.advance := by
  obtain ⟨expression, mid, hexpression, rfl, rfl⟩ := Grammar.run_expressionStatement_eq_done.mp h
  obtain ⟨hexpr, hnext⟩ := hnested.lowest hstream hexpression
  have hcur : stream.cur.kind ≠ .eof := fun heof => by
    have hstarts := hexpr.starts
    simp [heof, expressionStarters] at hstarts
  rw [eq_cons_of_cur stream hcur] at hexpr ⊢
  exact .expressionStatement hexpr (Grammar.statementEnd_pastSemicolon hnext)

theorem phrase_prefixExpression (hnested : Grammar.Sound nested) (hstream : stream.Unended)
    (hcur : stream.cur.kind = .bang ∨ stream.cur.kind = .minus)
    (h : (Grammar.prefixExpression nested).run stream = .done node rest) :
    Phrase .prefixExpression stream (.tree node) rest.advance := by
  obtain ⟨right, hright, rfl⟩ := Grammar.run_prefixExpression_eq_done.mp h
  obtain ⟨hexpr, hnext⟩ := hnested (by decide) hstream.advance hright
  have hcons := eq_cons_of_cur stream (by rcases hcur with hcur | hcur <;> simp [hcur])
  have hphrase := Phrase.prefixExpression hcur hexpr (Nat.not_lt.mpr hnext)
  rwa [← hcons] at hphrase

theorem phrase_infixExpression (hnested : Grammar.Sound nested) (hstream : stream.Unended)
    (hcur : stream.cur.kind ∈ (Precedence.ofKind stream.cur.kind).operators)
    (h : (Grammar.infixExpression nested left).run stream = .done node rest) :
    Phrase (.infixExpression left) stream (.tree node) rest.advance := by
  obtain ⟨right, hright, rfl⟩ := Grammar.run_infixExpression_eq_done.mp h
  obtain ⟨hexpr, hnext⟩ :=
    hnested (Precedence.ne_call_of_mem_operators hcur) hstream.advance hright
  rw [Precedence.within_of_mem_operators hcur] at hexpr
  have hcons := eq_cons_of_cur stream fun heof => by
    rw [heof] at hcur
    simp [Precedence.ofKind_eof, Precedence.operators] at hcur
  rw [hcons] at hcur ⊢
  exact .infixExpression hcur hexpr (Nat.not_lt.mpr hnext)

theorem phrase_groupedExpression (hnested : Grammar.Sound nested) (hstream : stream.Unended)
    (hcur : stream.cur.kind = .lparen)
    (h : (Grammar.groupedExpression nested).run stream = .done node rest) :
    Phrase .groupedExpression stream (.tree node) rest.advance := by
  obtain ⟨mid, hinner, hclose, rfl⟩ := Grammar.run_groupedExpression_eq_done.mp h
  have hexpr := (hnested.lowest hstream.advance hinner).1
  rw [advance_eq_cons_of_peek mid (by simp [hclose])] at hexpr
  rw [eq_cons_of_cur stream (by simp [hcur])]
  exact .groupedExpression hcur hexpr hclose

/-- A conditional without an alternative is not followed by one. -/
theorem phrase_ifExpression (hnested : Grammar.Sound nested) (hstream : stream.Unended)
    (hcur : stream.cur.kind = .kwIf)
    (h : (Grammar.ifExpression nested).run stream = .done node rest) :
    Phrase .ifExpression stream (.tree node) rest.advance := by
  have hexpr := hnested.conditional hstream hcur h
  obtain ⟨-, condition, mid, -, -, -, consequence, alternative, hend, rfl⟩ :=
    Grammar.run_ifExpression_eq_done.mp h
  have helse : alternative = none → rest.peek.kind ≠ .kwElse := by
    rintro rfl
    cases hend with
    | one _ helse => exact helse
  have hcons := eq_cons_of_cur stream (by simp [hcur])
  rw [hcons] at hexpr
  have hphrase := Phrase.ifExpression hcur hexpr helse
  rwa [← hcons] at hphrase

theorem phrase_functionLiteral (hnested : Grammar.Sound nested) (hstream : stream.Unended)
    (hcur : stream.cur.kind = .kwFunction)
    (h : (Grammar.functionLiteral nested).run stream = .done node rest) :
    Phrase .functionLiteral stream (.tree node) rest.advance := by
  have hexpr := hnested.function hstream hcur h
  obtain ⟨-, parameters, mid, -, -, body, -, rfl⟩ := Grammar.run_functionLiteral_eq_done.mp h
  have hcons := eq_cons_of_cur stream (by simp [hcur])
  rw [hcons] at hexpr
  have hphrase := Phrase.functionLiteral hcur hexpr
  rwa [← hcons] at hphrase

theorem phrase_integerLiteral (hcur : stream.cur.kind = .int)
    (h : Grammar.integerLiteral.run stream = .done node rest) :
    Phrase .integerLiteral stream (.tree node) rest.advance := by
  obtain ⟨number, hread, hle, rfl, rfl⟩ := Grammar.run_integerLiteral_eq_done.mp h
  have hphrase : Phrase .integerLiteral (stream.cur :: stream.advance) _ stream.advance :=
    .integerLiteral hcur hread hle
  rwa [← eq_cons_of_cur stream (by simp [hcur])] at hphrase

/-- What a rule reads from the token that chooses it is its construct. -/
theorem phrase_applyPrefix (hnested : Grammar.Sound nested) (hstream : stream.Unended)
    {rule : PrefixRule} (hrule : Rules.standard.prefixRule? stream.cur.kind = some rule)
    (h : (Grammar.applyPrefix nested rule).run stream = .done node rest) :
    Phrase rule.construct stream (.tree node) rest.advance := by
  have hcons := eq_cons_of_cur stream (Grammar.noBrace_of_prefixRule hrule).2
  cases hkind : stream.cur.kind <;> simp only [Rules.standard, hkind, reduceCtorEq,
    Option.some.injEq] at hrule <;> subst hrule
  case ident =>
    obtain ⟨rfl, rfl⟩ := Outcome.done.inj ((Grammar.run_identifier stream).symm.trans h)
    have hphrase : Phrase .identifier (stream.cur :: stream.advance) _ stream.advance :=
      .identifier hkind
    rwa [← hcons] at hphrase
  case int => exact phrase_integerLiteral hkind h
  case kwTrue | kwFalse =>
    obtain ⟨rfl, rfl⟩ := Outcome.done.inj ((Grammar.run_boolean stream).symm.trans h)
    have hphrase : Phrase .boolean (stream.cur :: stream.advance) _ stream.advance :=
      .boolean (by simp [hkind])
    rwa [← hcons] at hphrase
  case bang | minus => exact phrase_prefixExpression hnested hstream (by simp [hkind]) h
  case lparen => exact phrase_groupedExpression hnested hstream hkind h
  case kwIf => exact phrase_ifExpression hnested hstream hkind h
  case kwFunction => exact phrase_functionLiteral hnested hstream hkind h

/-- With the tightest precedence around it, an expression is a single operand. -/
theorem phrase_expression_call
    (h : (Grammar.expression .standard levels .call).run stream = .done node rest)
    (hstream : stream.Unended) : Phrase (.expression .call) stream (.tree node) rest.advance := by
  cases levels with
  | zero => simp [Grammar.expression] at h
  | succ levels =>
    obtain ⟨left, mid, hleft, hrest⟩ := Grammar.run_expressionFrom_eq_done.mp h
    have hstop : ¬ Precedence.call < .ofKind mid.peek.kind := Nat.not_lt.mpr (Precedence.level_le_call _)
    rw [Grammar.run_continued, if_neg hstop] at hrest
    obtain ⟨rfl, rfl⟩ := Outcome.done.inj hrest
    obtain ⟨rule, hrule, hrun⟩ := Grammar.run_operand_eq_done.mp hleft
    exact .operand (phrase_applyPrefix (Grammar.sound_expression levels) hstream hrule hrun)

theorem phrase_expression {precedence : Precedence}
    (h : (Grammar.expression .standard levels precedence).run stream = .done node rest)
    (hstream : stream.Unended) :
    Phrase (.expression precedence) stream (.tree node) rest.advance := by
  by_cases hcall : precedence = .call
  · subst hcall
    exact phrase_expression_call h hstream
  · obtain ⟨hexpr, hnext⟩ := Grammar.sound_expression levels hcall hstream h
    exact .expression hcall hexpr (Nat.not_lt.mpr hnext)

/-- What is read for a construct from its first token on is a phrase of it. -/
theorem phrase_of_run (hstream : stream.Unended) (hstart : construct.StartsOn stream.cur.kind)
    (h : (construct.reading .standard levels).run stream = .done value rest) :
    Phrase construct stream value rest.advance := by
  have hnested : Grammar.Sound (Grammar.expression .standard levels) := Grammar.sound_expression levels
  cases construct <;> obtain ⟨node, hrun, rfl⟩ := run_value_eq_done.mp h
  case program =>
    obtain ⟨statements, hturns, rfl⟩ := Grammar.run_program_eq_done.mp hrun
    obtain ⟨hstatements, hstop⟩ := Grammar.Sound.statements hnested hstream hturns
    have hrest : rest.Unended := hstream.of_suffix (Reading.suffix_of_run hrun)
    obtain rfl := hrest.eq_nil (by simpa using hstop)
    exact .program hstatements
  case statement =>
    have hcur := cur_ne_eof_of_run_statement hnested hstream hrun
    exact .statement (Grammar.Sound.statement hnested hstream hrun hcur)
  case letStatement | returnStatement =>
    have hcur : stream.cur.kind ≠ .eof := by rw [hstart]; decide
    have hstatement : (Grammar.statement (Grammar.expression .standard levels)).run stream =
        .done node rest := by
      rw [Grammar.run_statement, hstart]
      exact hrun
    have hphrase := Grammar.Sound.statement hnested hstream hstatement hcur
    rw [eq_cons_of_cur stream hcur] at hphrase ⊢
    first | exact .letStatement hstart hphrase | exact .returnStatement hstart hphrase
  case expressionStatement => exact phrase_expressionStatement hnested hstream hrun
  case blockStatement => exact .blockStatement (Grammar.Sound.block hnested hstream hstart hrun)
  case expression => exact phrase_expression hrun hstream
  case identifier =>
    have hrule : Rules.standard.prefixRule? stream.cur.kind = some .identifier := by rw [hstart]; rfl
    exact phrase_applyPrefix hnested hstream hrule hrun
  case boolean =>
    have hrule : Rules.standard.prefixRule? stream.cur.kind = some .boolean := by
      rcases hstart with hstart | hstart <;> rw [hstart] <;> rfl
    exact phrase_applyPrefix hnested hstream hrule hrun
  case integerLiteral => exact phrase_integerLiteral hstart hrun
  case prefixExpression => exact phrase_prefixExpression hnested hstream hstart hrun
  case infixExpression => exact phrase_infixExpression hnested hstream hstart hrun
  case groupedExpression => exact phrase_groupedExpression hnested hstream hstart hrun
  case ifExpression => exact phrase_ifExpression hnested hstream hstart hrun
  case functionLiteral => exact phrase_functionLiteral hnested hstream hstart hrun
  case functionParameters =>
    rw [eq_cons_of_cur stream (by rw [hstart]; decide)]
    exact .functionParameters hstart (Grammar.parameters_of_run hrun)
  case callExpression =>
    obtain ⟨arguments, harguments, rfl⟩ := Grammar.run_callExpression_eq_done.mp hrun
    have hphrase := Grammar.Sound.arguments hnested hstream harguments
    have hcons := eq_cons_of_cur stream (by rw [hstart]; decide)
    rw [hcons] at hstart ⊢
    exact .callExpression hstart hphrase
  case callArguments =>
    rw [eq_cons_of_cur stream (by rw [hstart]; decide)]
    exact .callArguments hstart (Grammar.Sound.arguments hnested hstream hrun)

/-! ## Where a phrase ends -/

/-- A semicolon after the construct belongs to it. -/
def Construct.isStatement : Construct → Bool
  | statement | letStatement | returnStatement | expressionStatement => true
  | _ => false

theorem semicolon_of_pastSemicolon (stream : TokenStream) :
    (Grammar.pastSemicolon stream).cur.kind = .semicolon ∨
      (Grammar.pastSemicolon stream).peek.kind ≠ .semicolon := by
  unfold Grammar.pastSemicolon
  split
  · exact .inl ‹_›
  · exact .inr ‹_›

theorem semicolon_of_letStatement (h : (Grammar.letStatement nested).run stream = .done node rest) :
    rest.cur.kind = .semicolon ∨ rest.peek.kind ≠ .semicolon := by
  obtain ⟨-, -, -, mid, -, -, rfl⟩ := Grammar.run_letStatement_eq_done.mp h
  exact semicolon_of_pastSemicolon mid

theorem semicolon_of_returnStatement
    (h : (Grammar.returnStatement nested).run stream = .done node rest) :
    rest.cur.kind = .semicolon ∨ rest.peek.kind ≠ .semicolon := by
  obtain ⟨-, mid, -, -, rfl⟩ := Grammar.run_returnStatement_eq_done.mp h
  exact semicolon_of_pastSemicolon mid

theorem semicolon_of_expressionStatement
    (h : (Grammar.expressionStatement nested).run stream = .done node rest) :
    rest.cur.kind = .semicolon ∨ rest.peek.kind ≠ .semicolon := by
  obtain ⟨-, mid, -, -, rfl⟩ := Grammar.run_expressionStatement_eq_done.mp h
  exact semicolon_of_pastSemicolon mid

/-- After a statement the current token is its semicolon, unless there is none. -/
theorem semicolon_of_run (hstatement : construct.isStatement = true)
    (h : (construct.reading .standard levels).run stream = .done value rest) :
    rest.cur.kind = .semicolon ∨ rest.peek.kind ≠ .semicolon := by
  cases construct <;> try cases hstatement
  all_goals obtain ⟨node, hrun, -⟩ := run_value_eq_done.mp h
  case statement =>
    rw [Grammar.run_statement] at hrun
    split at hrun
    · exact semicolon_of_letStatement hrun
    · split at hrun
      · exact semicolon_of_returnStatement hrun
      · exact semicolon_of_expressionStatement hrun
  case letStatement => exact semicolon_of_letStatement hrun
  case returnStatement => exact semicolon_of_returnStatement hrun
  case expressionStatement => exact semicolon_of_expressionStatement hrun

/-- What is read for a construct, other than a whole program, from its first token on closes its blocks,
or has come to the end of input with one left open. -/
theorem closes_of_run (hstream : stream.Unended) (hstart : construct.StartsOn stream.cur.kind)
    (hprogram : construct ≠ .program)
    (h : (construct.reading .standard levels).run stream = .done value rest) :
    Grammar.Closes stream rest := by
  have hnested : Grammar.Closing (Grammar.expression .standard levels) :=
    Grammar.closing_expression levels
  have hnoBrace : ∀ {kind : TokenKind}, stream.cur.kind = kind → Grammar.NoBrace kind →
      Grammar.NoBrace stream.cur.kind := fun hkind hbrace => hkind ▸ hbrace
  cases construct <;> obtain ⟨node, hrun, -⟩ := run_value_eq_done.mp h
  case program => exact absurd rfl hprogram
  case statement => exact Grammar.closes_statement hnested hstream hrun
  case letStatement => exact Grammar.closes_letStatement hnested hstream (hnoBrace hstart (by decide)) hrun
  case returnStatement =>
    exact Grammar.closes_returnStatement hnested hstream (hnoBrace hstart (by decide)) hrun
  case expressionStatement => exact Grammar.closes_expressionStatement hnested hstream hrun
  case blockStatement => exact Grammar.closes_blockStatement hnested hstream hstart hrun
  case expression => exact hnested hstream hrun
  case identifier =>
    obtain ⟨-, rfl⟩ := Outcome.done.inj ((Grammar.run_identifier stream).symm.trans hrun)
    exact .single (by rw [hstart]; decide) (hnoBrace hstart (by decide))
  case integerLiteral =>
    obtain ⟨_, -, -, -, rfl⟩ := Grammar.run_integerLiteral_eq_done.mp hrun
    exact .single (by rw [hstart]; decide) (hnoBrace hstart (by decide))
  case boolean =>
    obtain ⟨-, rfl⟩ := Outcome.done.inj ((Grammar.run_boolean stream).symm.trans hrun)
    rcases hstart with hstart | hstart <;>
      exact .single (by rw [hstart]; decide) (hnoBrace hstart (by decide))
  case prefixExpression =>
    rcases hstart with hstart | hstart <;>
      exact Grammar.closes_prefixExpression hnested hstream (hnoBrace hstart (by decide)) hrun
  case infixExpression =>
    exact Grammar.closes_infixExpression hnested hstream (ne_brace_of_mem_operators hstart) hrun
  case groupedExpression =>
    exact Grammar.closes_groupedExpression hnested hstream (hnoBrace hstart (by decide)) hrun
  case ifExpression =>
    exact Grammar.closes_ifExpression hnested hstream (hnoBrace hstart (by decide)) hrun
  case functionLiteral =>
    exact Grammar.closes_functionLiteral hnested hstream (hnoBrace hstart (by decide)) hrun
  case functionParameters =>
    exact Grammar.closes_functionParameters hstream (hnoBrace hstart (by decide)) hrun
  case callExpression =>
    exact Grammar.closes_callExpression hnested hstream (hnoBrace hstart (by decide)) hrun
  case callArguments =>
    exact Grammar.closes_callArguments hnested hstream (hnoBrace hstart (by decide)) hrun

end Parser

end Monkey
