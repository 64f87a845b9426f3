import Mathlib.Order.Filter.AtTopBot.Basic
import Monkey.Proofs.Run
import Monkey.Proofs.Derivation

/-!
# What is derived is read

Every derivation of the reference grammar is followed by the rules of the language, at all
sufficiently large numbers of levels of nesting.

An expression may be derived where the tokens after it go on with it, so reading does not stop at
its end. What is shown instead is that reading passes through it: reading the expression amounts to
going on from it. Where the next token binds no tighter than the precedence around, going on stops.
-/

namespace Monkey.Grammar

open Monkey.Derivation TokenStream Filter

variable {level : Precedence} {input after : List Token} {node : Node}

/-- A token after an expression of a level that the level can be followed by. -/
def Follows (level : Precedence) (after : List Token) : Prop :=
  (Precedence.ofKind (cur after).kind).level ≤ level.level ∧ (cur after).kind ≠ .kwElse

/-- Reading passes through an expression of a level. -/
def Passes (level : Precedence) (input : List Token) (node : Node) (after : List Token)
    (levels : Nat) : Prop :=
  ∀ precedence : Precedence, precedence ≠ .call → precedence.within.level ≤ level.level →
    ∃ rest : TokenStream, rest.advance = after ∧
      (expression .standard (levels + 1) precedence).run input =
        (continued .standard (expression .standard levels) precedence node).run rest

/-- Going on from an expression stops where the next token binds no tighter. -/
theorem run_continued_of_not_lt {rules : Rules} {nested : Nested} {precedence : Precedence}
    {left : Node} {stream : TokenStream}
    (h : (Precedence.ofKind stream.peek.kind).level ≤ precedence.level) :
    (continued rules nested precedence left).run stream = .done left stream := by
  have hnot : ¬ precedence < .ofKind stream.peek.kind := Nat.not_lt.mpr h
  rw [run_continued, if_neg hnot]

/-- An expression is read to its end where the next token binds no tighter. -/
theorem Passes.read {levels : Nat} (h : Passes level input node after levels)
    (precedence : Precedence) (hne : precedence ≠ .call)
    (hwithin : precedence.within.level ≤ level.level)
    (hnext : (Precedence.ofKind (cur after).kind).level ≤ precedence.level) :
    ∃ rest : TokenStream, rest.advance = after ∧
      (expression .standard (levels + 1) precedence).run input = .done node rest := by
  obtain ⟨rest, hrest, hrun⟩ := h precedence hne hwithin
  refine ⟨rest, hrest, hrun.trans (run_continued_of_not_lt ?_)⟩
  rw [← cur_advance, hrest]
  exact hnext

/-- A whole expression is read to its end where the next token does not go on with it. -/
theorem Passes.readLowest {levels : Nat} (h : Passes .equals input node after levels)
    (hnext : ¬ (cur after).kind.ContinuesExpression) :
    ∃ rest : TokenStream, rest.advance = after ∧
      (expression .standard (levels + 1) .lowest).run input = .done node rest := by
  refine h.read .lowest (by decide) (Nat.le_refl _) ?_
  rw [Precedence.level_ofKind_of_not_continues hnext]
  decide

/-- Reading passes through what an operand is. -/
theorem passes_of_operand {levels : Nat} (rest : TokenStream) (hrest : rest.advance = after)
    (h : (operand .standard (expression .standard levels)).run input = .done node rest) :
    Passes level input node after levels := by
  intro precedence _ _
  refine ⟨rest, hrest, ?_⟩
  change (expressionFrom .standard (expression .standard levels) precedence).run input = _
  rw [expressionFrom, Reading.run_bind, h]

/-- An operand is read by the rule for its first token. -/
theorem run_operand {nested : Nested} {t : Token} (rule : PrefixRule)
    (h : Rules.standard.prefixRule? t.kind = some rule) :
    (operand .standard nested).run (t :: input) = (applyPrefix nested rule).run (t :: input) := by
  simp [operand, h]

/-- What holds for all sufficiently large numbers holds of the number before each of them. -/
theorem eventually_pred {p : Nat → Prop} (h : ∀ᶠ levels in atTop, p levels) :
    ∀ᶠ levels in atTop, ∃ fewer, levels = fewer + 1 ∧ p fewer := by
  rw [eventually_atTop] at h ⊢
  obtain ⟨bound, hbound⟩ := h
  refine ⟨bound + 1, fun levels hle => ⟨levels - 1, by omega, hbound _ (by omega)⟩⟩

/-- A token that does not go on with an expression follows every level. -/
theorem follows_of_not_continues (h : ¬ (cur after).kind.ContinuesExpression)
    (helse : (cur after).kind ≠ .kwElse) : Follows level after := by
  refine ⟨?_, helse⟩
  rw [Precedence.level_ofKind_of_not_continues h]
  exact level.one_le_level

/-- What is read within a precedence that is no call binds tighter than it, except prefix
operators within their own. -/
theorem lt_of_within_le {precedence : Precedence} (hne : precedence ≠ .call)
    (hlevel : level ≠ .prefixOp) (h : precedence.within.level ≤ level.level) :
    precedence < level := by
  revert h
  cases precedence <;> cases level <;> first | decide | exact absurd rfl hne | exact absurd rfl hlevel

/-! ## Steps of expressions -/

/-- Reading passes from a left operand over the operator and its right operand. -/
theorem Passes.infixOp {op : Token} {mid : List Token} {left right : Node} {levels : Nat}
    (hop : op.kind ∈ level.operators)
    (hleft : Passes level input left (op :: mid) (levels + 1))
    (hright : Passes level.tighter mid right after levels) (hfollows : Follows level after) :
    Passes level input (.infixOp op left op.literal right) after (levels + 1) := by
  intro precedence hne hwithin
  have hprefix : level ≠ .prefixOp := by
    rintro rfl
    simp [Precedence.operators] at hop
  obtain ⟨rest, hrest, hrun⟩ := hleft precedence hne hwithin
  obtain ⟨last, hlast, hread⟩ := hright.read level (Precedence.ne_call_of_mem_operators hop)
    (by rw [Precedence.within_of_mem_operators hop]) hfollows.1
  refine ⟨last, hlast, hrun.trans ?_⟩
  have hpeek : rest.peek = op := by rw [← cur_advance, hrest, cur_cons]
  have hkind := Precedence.ofKind_of_mem_operators hop
  have happlied : (infixExpression (expression .standard (levels + 1)) left).run (op :: mid) =
      .done (.infixOp op left op.literal right) last :=
    run_infixExpression_eq_done.mpr ⟨right, by simpa [hkind] using hread, by simp⟩
  rw [run_continued, hpeek, hkind, if_pos (lt_of_within_le hne hprefix hwithin),
    Precedence.infixRule_of_mem_operators hop, hrest]
  simp only [applyInfix, happlied]

/-- Reading passes from what is called over the arguments. -/
theorem Passes.call {t : Token} {mid : List Token} {callee : Node} {arguments : List Node}
    {last : TokenStream} {levels : Nat} (hparen : t.kind = .lparen)
    (hcallee : Passes .call input callee (t :: mid) levels)
    (hlast : last.advance = after)
    (harguments : (callArguments (expression .standard levels)).run (t :: mid) =
      .done arguments last) :
    Passes .call input (.call t callee arguments) after levels := by
  intro precedence hne hwithin
  obtain ⟨rest, hrest, hrun⟩ := hcallee precedence hne hwithin
  refine ⟨last, hlast, hrun.trans ?_⟩
  have hpeek : rest.peek = t := by rw [← cur_advance, hrest, cur_cons]
  have hcall : (callExpression (expression .standard levels) callee).run (t :: mid) =
      .done (.call t callee arguments) last :=
    run_callExpression_eq_done.mpr ⟨arguments, harguments, by simp⟩
  have hbinds : precedence < .ofKind .lparen := lt_of_within_le hne (by decide) hwithin
  have hrule : Rules.standard.infixRule? .lparen = some .call := rfl
  rw [run_continued, hpeek, hparen, if_pos hbinds, hrule, hrest]
  simp only [applyInfix, hcall]

/-- Reading passes through a prefix operator and its operand. -/
theorem Passes.prefixOp {op : Token} {right : Node} {levels : Nat}
    (hop : op.kind = .bang ∨ op.kind = .minus)
    (hright : Passes .prefixOp input right after levels) (hfollows : Follows .prefixOp after) :
    Passes .prefixOp (op :: input) (.prefixOp op op.literal right) after (levels + 1) := by
  obtain ⟨rest, hrest, hread⟩ := hright.read .prefixOp (by decide) (Nat.le_refl _) hfollows.1
  refine passes_of_operand rest hrest ?_
  have hrule : Rules.standard.prefixRule? op.kind = some .operator := by
    rcases hop with hop | hop <;> simp [hop, Rules.standard]
  rw [run_operand _ hrule]
  exact run_prefixExpression_eq_done.mpr ⟨right, hread, by simp⟩

/-- Reading passes through an expression in parentheses. -/
theorem Passes.group {t close : Token} {inner : Node} {levels : Nat} (hopen : t.kind = .lparen)
    (hinner : Passes .equals input inner (close :: after) levels) (hclose : close.kind = .rparen) :
    Passes .call (t :: input) inner after (levels + 1) := by
  obtain ⟨rest, hrest, hread⟩ := hinner.readLowest (by rw [cur_cons, hclose]; decide)
  have hpeek : rest.peek = close := by rw [← cur_advance, hrest, cur_cons]
  refine passes_of_operand rest.advance (by rw [hrest, advance_cons]) ?_
  rw [run_operand .group (by rw [hopen]; rfl)]
  exact run_groupedExpression_eq_done.mpr ⟨rest, hread, by rw [hpeek, hclose], rfl⟩

/-- Reading passes through a conditional. -/
theorem Passes.conditional {t opening close : Token} {mid : List Token} {rest : TokenStream}
    {condition consequence : Node} {alternative : Option Node} {levels : Nat}
    (hif : t.kind = .kwIf) (hopen : opening.kind = .lparen)
    (hcondition : Passes .equals input condition (close :: mid) levels)
    (hclose : close.kind = .rparen) (hbrace : (cur mid).kind = .lbrace) (hrest : rest.advance = after)
    (hbranches : BranchesFrom (expression .standard (levels + 1)) mid consequence alternative rest) :
    Passes .call (t :: opening :: input) (.conditional t condition consequence alternative) after
      (levels + 1) := by
  obtain ⟨last, hlast, hread⟩ := hcondition.readLowest (by rw [cur_cons, hclose]; decide)
  have hpeek : last.peek = close := by rw [← cur_advance, hlast, cur_cons]
  refine passes_of_operand rest hrest ?_
  rw [run_operand .conditional (by rw [hif]; rfl)]
  refine run_ifExpression_eq_done.mpr ⟨hopen, condition, last, hread, by rw [hpeek, hclose], ?_,
    consequence, alternative, ?_, rfl⟩
  · rw [hlast]
    exact hbrace
  · rw [hlast]
    exact hbranches

/-- Reading passes through a function. -/
theorem Passes.function {t opening : Token} {mid rest : TokenStream} {parameters : List Node}
    {body : Node} {levels : Nat} (hfn : t.kind = .kwFunction) (hopen : opening.kind = .lparen)
    (hparameters : functionParameters.run (opening :: input) = .done parameters mid)
    (hbrace : mid.peek.kind = .lbrace) (hrest : rest.advance = after)
    (hbody : (blockStatement (expression .standard levels)).run mid.advance = .done body rest) :
    Passes .call (t :: opening :: input) (.function t parameters body) after levels := by
  refine passes_of_operand rest hrest ?_
  rw [run_operand .function (by rw [hfn]; rfl)]
  exact run_functionLiteral_eq_done.mpr ⟨hopen, parameters, mid, hparameters, hbrace, body, hbody,
    rfl⟩

/-! ## Lists in parentheses -/

/-- Further parameters are read after a token before them. -/
theorem members_of_moreParameters {more : List Node} (h : MoreParameters input more after) :
    ∀ stream : TokenStream, stream.advance = input → ∃ last : TokenStream,
      Members (do Reading.expect .ident; identifier) stream more last ∧
        last.peek.kind = .rparen ∧ last.advance.advance = after := by
  induction h with
  | close hclose =>
    intro stream hstream
    have hpeek : stream.peek.kind = .rparen := by rw [← cur_advance, hstream, cur_cons, hclose]
    exact ⟨stream, .stop (by simp [hpeek]), hpeek, by rw [hstream, advance_cons]⟩
  | @comma t name input after more hcomma hname _ ih =>
    intro stream hstream
    have hpeek : stream.peek.kind = .comma := by rw [← cur_advance, hstream, cur_cons, hcomma]
    obtain ⟨last, hmembers, hclose, hlast⟩ := ih (name :: input) rfl
    refine ⟨last, .step hpeek (run_parameter_eq_done.mpr ?_) hmembers, hclose, hlast⟩
    rw [hstream]
    exact ⟨hname, rfl, rfl⟩

/-- Parameters are read from the parenthesis before them on. -/
theorem run_functionParameters {parameters : List Node} (h : Parameters input parameters after)
    (t : Token) : ∃ rest : TokenStream, rest.advance = after ∧
      functionParameters.run (t :: input) = .done parameters rest := by
  cases h with
  | none hclose =>
    exact ⟨_, rfl, run_parenthesized_eq_done.mpr (.inl ⟨hclose, rfl, rfl⟩)⟩
  | @some name input after more hname hmore =>
    obtain ⟨last, hmembers, hclose, hlast⟩ := members_of_moreParameters hmore (name :: input) rfl
    have hfull : (peek (t :: name :: input)).kind ≠ .rparen := by simp [hname]
    exact ⟨last.advance, hlast, run_parenthesized_eq_done.mpr (.inr ⟨hfull, _, more, _, last,
      run_parameter_eq_done.mpr ⟨hname, rfl, rfl⟩, hmembers, hclose, rfl, rfl⟩)⟩

/-! ## Statements -/

/-- The end of a statement is reached from an expression that is read to its end. -/
theorem pastSemicolon_of_statementEnd {mid : List Token} {rest : TokenStream}
    (h : StatementEnd mid after) (hsemicolon : (cur after).kind ≠ .semicolon)
    (hrest : rest.advance = mid) : (pastSemicolon rest).advance = after := by
  have hpeek : rest.peek = cur mid := by rw [← cur_advance, hrest]
  cases h with
  | semicolon ht => simp [pastSemicolon, hpeek, ht, hrest]
  | bare => simp [pastSemicolon, hpeek, hsemicolon, hrest]

/-- A statement end can be followed by what follows the statement. -/
theorem follows_of_statementEnd {mid : List Token} (h : StatementEnd mid after)
    (helse : (cur after).kind ≠ .kwElse) :
    ¬ (cur mid).kind.ContinuesExpression ∧ (cur mid).kind ≠ .kwElse := by
  cases h with
  | semicolon ht => rw [cur_cons, ht]; decide
  | bare hnot => exact ⟨hnot, helse⟩

/-- With enough levels an expression that ends a statement is read up to the end of the statement. -/
theorem eventually_ended {mid : List Token} (hend : StatementEnd mid after)
    (h : Follows .equals mid → ∀ᶠ levels in atTop, Passes .equals input node mid levels) :
    ∀ᶠ levels in atTop, (cur after).kind ≠ .semicolon → (cur after).kind ≠ .kwElse →
      ∃ rest : TokenStream, (pastSemicolon rest).advance = after ∧
        (expression .standard levels .lowest).run input = .done node rest := by
  by_cases helse : (cur after).kind = .kwElse
  · exact .of_forall fun _ _ hne => absurd helse hne
  have hfollows := follows_of_statementEnd hend helse
  filter_upwards [eventually_pred (h (follows_of_not_continues hfollows.1 hfollows.2))] with
    levels hpasses hsemicolon _
  obtain ⟨fewer, rfl, hpasses⟩ := hpasses
  obtain ⟨rest, hrest, hrun⟩ := hpasses.readLowest hfollows.1
  exact ⟨rest, pastSemicolon_of_statementEnd hend hsemicolon hrest, hrun⟩

mutual

theorem eventually_statements {input after : List Token} {statements : List Node} :
    Statements input statements after → ∀ᶠ levels in atTop, ∀ closer ∈ [.rbrace, .eof],
      (cur after).kind = closer ∨ (cur after).kind = .eof →
      Turns closer (statement (expression .standard levels)) input statements after
  | .nil => .of_forall fun _ _ _ hstop => .stop hstop
  | @Statements.cons _ mid _ _ _ hfirst hmore => by
    have hstarts := hfirst.starts
    filter_upwards [eventually_statement hfirst, eventually_statements hmore] with
      levels hstatement hrest closer hcloser hstop
    have hnext : (cur mid).kind ≠ .semicolon ∧ (cur mid).kind ≠ .kwElse := by
      cases hmore with
      | nil =>
        simp only [List.mem_cons, List.not_mem_nil, or_false] at hcloser
        rcases hcloser with rfl | rfl <;> rcases hstop with h | h <;> simp [h]
      | cons hsecond =>
        have hsecond := hsecond.starts
        constructor <;> intro h <;> simp [h, expressionStarters] at hsecond
    obtain ⟨rest, hmid, hrun⟩ := hstatement hnext.1 hnext.2
    refine .step ?_ hrun (hmid ▸ hrest closer hcloser hstop)
    simp only [List.mem_cons, List.not_mem_nil, or_false] at hcloser
    rcases hcloser with rfl | rfl <;> rintro (h | h) <;> simp [h, expressionStarters] at hstarts

theorem eventually_statement {input after : List Token} {node : Node} :
    Statement input node after → ∀ᶠ levels in atTop,
      (cur after).kind ≠ .semicolon → (cur after).kind ≠ .kwElse →
      ∃ rest : TokenStream, rest.advance = after ∧
        (statement (expression .standard levels)).run input = .done node rest
  | .letStatement hlet hname hassign hvalue hend => by
    filter_upwards [eventually_ended hend (eventually_expression hvalue)] with
      levels hended hsemicolon helse
    obtain ⟨rest, hrest, hrun⟩ := hended hsemicolon helse
    refine ⟨pastSemicolon rest, hrest, ?_⟩
    rw [run_statement, cur_cons, if_pos hlet]
    exact run_letStatement_eq_done.mpr ⟨hname, hassign, _, rest, hrun, rfl, rfl⟩
  | .returnStatement hreturn hvalue hend => by
    filter_upwards [eventually_ended hend (eventually_expression hvalue)] with
      levels hended hsemicolon helse
    obtain ⟨rest, hrest, hrun⟩ := hended hsemicolon helse
    refine ⟨pastSemicolon rest, hrest, ?_⟩
    rw [run_statement, cur_cons, if_neg (by simp [hreturn]), if_pos hreturn]
    exact run_returnStatement_eq_done.mpr ⟨_, rest, hrun, rfl, rfl⟩
  | .expressionStatement hvalue hend => by
    have hstarts := hvalue.starts
    filter_upwards [eventually_ended hend (eventually_expression hvalue)] with
      levels hended hsemicolon helse
    obtain ⟨rest, hrest, hrun⟩ := hended hsemicolon helse
    refine ⟨pastSemicolon rest, hrest, ?_⟩
    rw [cur_cons] at hstarts
    rw [run_statement, cur_cons, if_neg fun h => ?_, if_neg fun h => ?_]
    · exact run_expressionStatement_eq_done.mpr ⟨_, rest, hrun, rfl, rfl⟩
    all_goals simp [h, expressionStarters] at hstarts

theorem eventually_block {input after : List Token} {node : Node} :
    Block input node after → ∀ᶠ levels in atTop, ∃ rest : TokenStream, rest.advance = after ∧
      (blockStatement (expression .standard levels)).run input = .done node rest
  | .closed _ hstatements hclose => by
    filter_upwards [eventually_statements hstatements] with levels hturns
    exact ⟨_, rfl, run_blockStatement_eq_done.mpr
      ⟨_, hturns .rbrace (by simp) (.inl hclose), rfl⟩⟩
  | .unclosed _ hstatements => by
    filter_upwards [eventually_statements hstatements] with levels hturns
    exact ⟨[], rfl, run_blockStatement_eq_done.mpr ⟨_, hturns .rbrace (by simp) (.inr rfl), rfl⟩⟩

theorem eventually_expression {level : Precedence} {input after : List Token} {node : Node} :
    Expression level input node after → Follows level after →
      ∀ᶠ levels in atTop, Passes level input node after levels
  | @Expression.infixOp _ op _ mid _ _ _ hop hleft hright, hfollows => by
    have hkind := Precedence.ofKind_of_mem_operators hop
    have hleftFollows : Follows level (op :: mid) := by
      refine ⟨by rw [cur_cons, hkind], fun helse => ?_⟩
      rw [cur_cons] at helse
      exact Precedence.not_mem_operators_kwElse (helse ▸ hop)
    have hrightFollows : Follows level.tighter after := by
      refine ⟨Nat.le_trans hfollows.1 ?_, hfollows.2⟩
      cases level <;> decide
    filter_upwards [eventually_expression hleft hleftFollows,
      eventually_pred (eventually_expression hright hrightFollows)] with levels hl hr
    obtain ⟨fewer, rfl, hr⟩ := hr
    exact hl.infixOp hop hr hfollows
  | .tighter hne h, hfollows => by
    have hstep := Precedence.level_tighter hne
    filter_upwards [eventually_expression h ⟨by have := hfollows.1; omega, hfollows.2⟩] with
      levels hpasses precedence hcall hwithin
    exact hpasses precedence hcall (by omega)
  | .prefixOp hop hright, hfollows => by
    filter_upwards [eventually_pred (eventually_expression hright hfollows)] with levels hpasses
    obtain ⟨fewer, rfl, hpasses⟩ := hpasses
    exact hpasses.prefixOp hop hfollows
  | @Expression.call t _ mid _ _ _ hcallee hparen harguments, _ => by
    have hfollows : Follows .call (t :: mid) :=
      ⟨Precedence.level_le_call _, by rw [cur_cons, hparen]; decide⟩
    filter_upwards [eventually_expression hcallee hfollows, eventually_arguments harguments] with
      levels hpasses harguments
    obtain ⟨last, hlast, hrun⟩ := harguments t
    exact hpasses.call hparen hlast hrun
  | .identifier h, _ => .of_forall fun _ => passes_of_operand _ rfl (by
    rw [run_operand .identifier (by rw [h]; rfl)]
    exact run_identifier _)
  | .integer h hread hle, _ => .of_forall fun _ => passes_of_operand _ rfl (by
    rw [run_operand .integer (by rw [h]; rfl)]
    exact run_integerLiteral_eq_done.mpr ⟨_, hread, hle, rfl, rfl⟩)
  | .yes (t := t) h, _ => .of_forall fun _ => passes_of_operand (t :: after) rfl (by
    rw [run_operand .boolean (by rw [h]; rfl)]
    simp [applyPrefix, h])
  | .no (t := t) h, _ => .of_forall fun _ => passes_of_operand (t :: after) rfl (by
    rw [run_operand .boolean (by rw [h]; rfl)]
    simp [applyPrefix, h])
  | @Expression.group _ close _ _ _ hopen hinner hclose, _ => by
    have hnext : ¬ (cur (close :: after)).kind.ContinuesExpression ∧
        (cur (close :: after)).kind ≠ .kwElse := by rw [cur_cons, hclose]; decide
    filter_upwards [eventually_pred (eventually_expression hinner
      (follows_of_not_continues hnext.1 hnext.2))] with levels hpasses
    obtain ⟨fewer, rfl, hpasses⟩ := hpasses
    exact hpasses.group hopen hclose
  | @Expression.conditional _ _ close _ mid _ _ _ _ hif hopen hcondition hclose hbranches, hfollows => by
    have hnext : ¬ (cur (close :: mid)).kind.ContinuesExpression ∧
        (cur (close :: mid)).kind ≠ .kwElse := by rw [cur_cons, hclose]; decide
    filter_upwards [eventually_pred (eventually_expression hcondition
      (follows_of_not_continues hnext.1 hnext.2)), eventually_branches hbranches hfollows.2] with
      levels hpasses hbranchesFrom
    obtain ⟨fewer, rfl, hpasses⟩ := hpasses
    obtain ⟨rest, hrest, hrun⟩ := hbranchesFrom
    exact hpasses.conditional hif hopen hclose hbranches.starts hrest hrun
  | @Expression.function _ opening _ _ _ _ _ hfn hopen hparameters hbody, _ => by
    obtain ⟨mid, hmid, hrun⟩ := run_functionParameters hparameters opening
    filter_upwards [eventually_block hbody] with levels hblock
    obtain ⟨rest, hrest, hblock⟩ := hblock
    exact .function hfn hopen hrun (by rw [← cur_advance, hmid]; exact hbody.starts) hrest
      (hmid ▸ hblock)

theorem eventually_branches {input after : List Token} {consequence : Node}
    {alternative : Option Node} :
    Branches input consequence alternative after → (cur after).kind ≠ .kwElse →
      ∀ᶠ levels in atTop, ∃ rest : TokenStream, rest.advance = after ∧
        BranchesFrom (expression .standard levels) input consequence alternative rest
  | .one hblock, helse => by
    filter_upwards [eventually_block hblock] with levels hread
    obtain ⟨rest, hrest, hrun⟩ := hread
    exact ⟨rest, hrest, .one hrun (by rwa [← cur_advance, hrest])⟩
  | .two hfirst helse hsecond, _ => by
    filter_upwards [eventually_block hfirst, eventually_block hsecond] with levels hread hread'
    obtain ⟨mid, hmid, hrun⟩ := hread
    obtain ⟨rest, hrest, hrun'⟩ := hread'
    refine ⟨rest, hrest, .two hrun ?_ ?_ ?_⟩
    · rw [← cur_advance, hmid]
      exact helse
    · rw [hmid, peek_cons]
      exact hsecond.starts
    · rw [hmid, advance_cons]
      exact hrun'

theorem eventually_arguments {input after : List Token} {arguments : List Node} :
    Arguments input arguments after → ∀ᶠ levels in atTop, ∀ t : Token,
      ∃ rest : TokenStream, rest.advance = after ∧
        (callArguments (expression .standard levels)).run (t :: input) = .done arguments rest
  | .none hclose => .of_forall fun _ _ =>
    ⟨_, rfl, run_parenthesized_eq_done.mpr (.inl ⟨hclose, rfl, rfl⟩)⟩
  | @Arguments.some _ mid _ _ _ hfirst hmore => by
    have hnext : ¬ (cur mid).kind.ContinuesExpression ∧ (cur mid).kind ≠ .kwElse := by
      rcases hmore.starts with h | h <;> rw [h] <;> decide
    have hstarts := hfirst.starts
    filter_upwards [eventually_pred (eventually_expression hfirst
      (follows_of_not_continues hnext.1 hnext.2)), eventually_moreArguments hmore] with
      levels hpasses hmembers t
    obtain ⟨fewer, rfl, hpasses⟩ := hpasses
    obtain ⟨rest, hrest, hread⟩ := hpasses.readLowest hnext.1
    obtain ⟨last, hlast, hclose, hafter⟩ := hmembers rest hrest
    refine ⟨last.advance, hafter, run_parenthesized_eq_done.mpr (.inr ⟨fun h => ?_, _, _, rest, last,
      by simpa using hread, hlast, hclose, rfl, rfl⟩)⟩
    rw [peek_cons] at h
    simp [h, expressionStarters] at hstarts

theorem eventually_moreArguments {input after : List Token} {more : List Node} :
    MoreArguments input more after → ∀ᶠ levels in atTop, ∀ stream : TokenStream,
      stream.advance = input → ∃ last : TokenStream,
        Members (do Reading.advance; expression .standard levels .lowest) stream more last ∧
          last.peek.kind = .rparen ∧ last.advance.advance = after
  | .close hclose => .of_forall fun _ stream hstream => by
    have hpeek : stream.peek.kind = .rparen := by rw [← cur_advance, hstream, cur_cons, hclose]
    exact ⟨stream, .stop (by simp [hpeek]), hpeek, by rw [hstream, advance_cons]⟩
  | @MoreArguments.comma _ _ mid _ _ _ hcomma hargument hmore => by
    have hnext : ¬ (cur mid).kind.ContinuesExpression ∧ (cur mid).kind ≠ .kwElse := by
      rcases hmore.starts with h | h <;> rw [h] <;> decide
    filter_upwards [eventually_pred (eventually_expression hargument
      (follows_of_not_continues hnext.1 hnext.2)), eventually_moreArguments hmore] with
      levels hpasses hmembers stream hstream
    obtain ⟨fewer, rfl, hpasses⟩ := hpasses
    obtain ⟨rest, hrest, hread⟩ := hpasses.readLowest hnext.1
    obtain ⟨last, hlast, hclose, hafter⟩ := hmembers rest hrest
    have hpeek : stream.peek.kind = .comma := by rw [← cur_advance, hstream, cur_cons, hcomma]
    refine ⟨last, .step hpeek ?_ hlast, hclose, hafter⟩
    rw [hstream]
    simpa using hread

end

end Monkey.Grammar
