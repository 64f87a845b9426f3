import Monkey.Proofs.Printed

/-!
# The tokens of a tree derive the tree

The tokens that a well-formed tree is meant as are derived as a tree of the same shape, as long as no
statement in it is read as arguments of a call of the one before it. Whatever is printed as an expression
is an operand: operators stand in parentheses, so no level of precedence is too tight for it.
-/

namespace Monkey.Node

open Monkey.Derivation

/-- The tokens of an expression without the parentheses around an operator. -/
def bare : Node → List Token
  | prefixOp _ operator right => ⟨.ofOperator operator, operator⟩ :: right.printed
  | infixOp _ left operator right =>
    left.printed ++ ⟨.ofOperator operator, operator⟩ :: right.printed
  | node => node.printed

/-- An expression with an operator stands in parentheses, and one without is bare. -/
theorem printed_eq_bare (node : Node) :
    node.printed = if node.isParenthesized then
      TokenKind.lparen.token :: (node.bare ++ [TokenKind.rparen.token]) else node.bare := by
  cases node <;> simp [isParenthesized, bare, printed]

/-- A condition always stands in parentheses. -/
theorem conditionTokens_eq (node : Node) :
    conditionTokens node.isParenthesized node.printed =
      TokenKind.lparen.token :: (node.bare ++ [TokenKind.rparen.token]) := by
  rw [printed_eq_bare]
  cases node.isParenthesized <;> rfl

/-- Trees of the same shape. -/
def SameShape (node other : Node) : Prop := node.withoutTokens = other.withoutTokens

theorem SameShape.eq {node other : Node} (h : node.SameShape other) :
    node.withoutTokens = other.withoutTokens := h

/-- The tokens of a tree derive a tree of its shape, whatever comes after them. After an expression as a
statement there must be no token that goes on with it. -/
def Derived (node : Node) : Prop :=
  match node.kind with
  | .program => True
  | .block => ∀ after, ∃ q, q.SameShape node ∧ Block (node.printed ++ after) q after
  | .letStatement | .returnStatement | .expressionStatement => ∀ after,
    (node.kind = .expressionStatement → ¬ (TokenStream.cur after).kind.ContinuesExpression) →
      ∃ q, q.SameShape node ∧ Statement (node.printed ++ after) q after
  | _ => ∀ after, (∃ q, q.SameShape node ∧ Expression .call (node.printed ++ after) q after) ∧
    ∃ q, q.SameShape node ∧ Expression .equals (node.bare ++ after) q after

variable {node : Node}

theorem Derived.block (h : node.Derived) (hkind : node.kind = .block) (after : List Token) :
    ∃ q, q.SameShape node ∧ Block (node.printed ++ after) q after := by
  unfold Derived at h
  rw [hkind] at h
  exact h after

theorem Derived.statement (h : node.Derived) (hkind : node.kind.isListed = true)
    (after : List Token)
    (hafter : node.kind = .expressionStatement →
      ¬ (TokenStream.cur after).kind.ContinuesExpression) :
    ∃ q, q.SameShape node ∧ Statement (node.printed ++ after) q after := by
  unfold Derived at h
  cases hk : node.kind <;> rw [hk] at h hkind hafter <;> first | exact h after hafter | cases hkind

theorem Derived.expression (h : node.Derived) (hkind : node.kind.isExpression = true)
    (after : List Token) :
    (∃ q, q.SameShape node ∧ Expression .call (node.printed ++ after) q after) ∧
      ∃ q, q.SameShape node ∧ Expression .equals (node.bare ++ after) q after := by
  unfold Derived at h
  cases hk : node.kind <;> rw [hk] at h hkind <;> first | exact h after | cases hkind

/-- Any level of precedence can be derived from an operand. -/
theorem loosen_call {input after : List Token} (h : Expression .call input node after)
    (level : Precedence) : Expression level input node after :=
  h.loosen level (Precedence.level_le_call level)

/-- An operand without an operator is derived in both ways at once. -/
theorem derived_of_operand (hkind : node.kind.isExpression = true)
    (hparen : node.isParenthesized = false)
    (h : ∀ after, ∃ q, q.SameShape node ∧ Expression .call (node.printed ++ after) q after) :
    node.Derived := by
  have hbare : node.bare = node.printed := by rw [printed_eq_bare, hparen]; rfl
  have hboth : ∀ after, (∃ q, q.SameShape node ∧ Expression .call (node.printed ++ after) q after) ∧
      ∃ q, q.SameShape node ∧ Expression .equals (node.bare ++ after) q after := by
    intro after
    obtain ⟨q, hq, hexpr⟩ := h after
    exact ⟨⟨q, hq, hexpr⟩, q, hq, hbare ▸ loosen_call hexpr .equals⟩
  unfold Derived
  cases hk : node.kind <;> rw [hk] at hkind <;> first | exact hboth | cases hkind

/-- An operator is derived in parentheses if it is derived without them. -/
theorem derived_of_operator (hkind : node.kind.isExpression = true)
    (hparen : node.isParenthesized = true)
    (h : ∀ after, ∃ q, q.SameShape node ∧ Expression .equals (node.bare ++ after) q after) :
    node.Derived := by
  have hboth : ∀ after, (∃ q, q.SameShape node ∧ Expression .call (node.printed ++ after) q after) ∧
      ∃ q, q.SameShape node ∧ Expression .equals (node.bare ++ after) q after := by
    intro after
    obtain ⟨q, hq, hexpr⟩ := h (TokenKind.rparen.token :: after)
    refine ⟨⟨q, hq, ?_⟩, h after⟩
    rw [printed_eq_bare, hparen, if_pos rfl, List.cons_append, List.append_assoc]
    exact .group rfl hexpr rfl
  unfold Derived
  cases hk : node.kind <;> rw [hk] at hkind <;> first | exact hboth | cases hkind

/-! ## Lists -/

theorem printedCommas_cons (first : Node) (rest : List Node) :
    printedCommas (first :: rest) =
      first.printed ++ rest.flatMap fun n => TokenKind.comma.token :: n.printed := by
  induction rest generalizing first with
  | nil => simp
  | cons next rest ih => rw [printedCommas_cons_cons, ih, List.flatMap_cons, List.cons_append]

/-- Lists of trees of the same shapes. -/
def SameShapes (nodes others : List Node) : Prop :=
  nodes.map withoutTokens = others.map withoutTokens

theorem SameShapes.cons {first first' : Node} {rest rest' : List Node} (h : first'.SameShape first)
    (hrest : SameShapes rest' rest) : SameShapes (first' :: rest') (first :: rest) := by
  rw [SameShapes, List.map_cons, List.map_cons, h, hrest]

/-- The tokens of the trees of a list after its first one, each after a comma. -/
theorem derived_moreArguments (nodes : List Node) (h : ∀ n ∈ nodes, n.Derived)
    (hkinds : ∀ n ∈ nodes, n.kind.isExpression = true) (after : List Token) :
    ∃ qs, SameShapes qs nodes ∧ MoreArguments
      ((nodes.flatMap fun n => TokenKind.comma.token :: n.printed) ++ TokenKind.rparen.token :: after)
      qs after := by
  induction nodes with
  | nil => exact ⟨[], rfl, .close rfl⟩
  | cons first rest ih =>
    obtain ⟨hfirst, hrest⟩ := List.forall_mem_cons.mp h
    obtain ⟨hkind, hkindRest⟩ := List.forall_mem_cons.mp hkinds
    obtain ⟨qs, hqs, hmore⟩ := ih hrest hkindRest
    obtain ⟨⟨q, hq, hexpr⟩, -⟩ := hfirst.expression hkind
      ((rest.flatMap fun n => TokenKind.comma.token :: n.printed) ++ TokenKind.rparen.token :: after)
    refine ⟨q :: qs, hqs.cons hq, ?_⟩
    rw [List.flatMap_cons, List.append_assoc, List.cons_append]
    exact .comma rfl (loosen_call hexpr .equals) hmore

theorem derived_arguments (nodes : List Node) (h : ∀ n ∈ nodes, n.Derived)
    (hkinds : ∀ n ∈ nodes, n.kind.isExpression = true) (after : List Token) :
    ∃ qs, SameShapes qs nodes ∧
      Arguments (printedCommas nodes ++ TokenKind.rparen.token :: after) qs after := by
  cases nodes with
  | nil => exact ⟨[], rfl, .none rfl⟩
  | cons first rest =>
    obtain ⟨hfirst, hrest⟩ := List.forall_mem_cons.mp h
    obtain ⟨hkind, hkindRest⟩ := List.forall_mem_cons.mp hkinds
    obtain ⟨qs, hqs, hmore⟩ := derived_moreArguments rest hrest hkindRest after
    obtain ⟨⟨q, hq, hexpr⟩, -⟩ := hfirst.expression hkind
      ((rest.flatMap fun n => TokenKind.comma.token :: n.printed) ++ TokenKind.rparen.token :: after)
    refine ⟨q :: qs, hqs.cons hq, ?_⟩
    rw [printedCommas_cons, List.append_assoc]
    exact .some (loosen_call hexpr .equals) hmore

theorem derived_moreParameters (nodes : List Node) (h : ∀ n ∈ nodes, n.kind = .identifier)
    (after : List Token) :
    ∃ qs, SameShapes qs nodes ∧ MoreParameters
      ((nodes.flatMap fun n => TokenKind.comma.token :: n.printed) ++ TokenKind.rparen.token :: after)
      qs after := by
  induction nodes with
  | nil => exact ⟨[], rfl, .close rfl⟩
  | cons first rest ih =>
    obtain ⟨hfirst, hrest⟩ := List.forall_mem_cons.mp h
    obtain ⟨qs, hqs, hmore⟩ := ih hrest
    cases first with
    | identifier t value =>
      exact ⟨.identifier ⟨.ident, value⟩ value :: qs, hqs.cons rfl, .comma rfl rfl hmore⟩
    | _ => cases hfirst

theorem derived_parameters (nodes : List Node) (h : ∀ n ∈ nodes, n.kind = .identifier)
    (after : List Token) :
    ∃ qs, SameShapes qs nodes ∧
      Parameters (printedCommas nodes ++ TokenKind.rparen.token :: after) qs after := by
  cases nodes with
  | nil => exact ⟨[], rfl, .none rfl⟩
  | cons first rest =>
    obtain ⟨hfirst, hrest⟩ := List.forall_mem_cons.mp h
    obtain ⟨qs, hqs, hmore⟩ := derived_moreParameters rest hrest after
    cases first with
    | identifier t value =>
      refine ⟨.identifier ⟨.ident, value⟩ value :: qs, hqs.cons rfl, ?_⟩
      rw [printedCommas_cons]
      exact .some rfl hmore
    | _ => cases hfirst

/-- A word does not go on with an expression. -/
theorem not_continues_of_isWordlike {kind : TokenKind} (h : kind.isWordlike = true) :
    ¬ kind.ContinuesExpression := by
  cases kind <;> first | decide | cases h

theorem derived_statements (nodes : List Node) (h : ∀ n ∈ nodes, n.Derived)
    (hkinds : ∀ n ∈ nodes, n.kind.isListed = true) (hstarts : ∀ n ∈ nodes, n.StartsAlike)
    (hpairs : pairCount CalledBy nodes = 0) (after : List Token)
    (hafter : ¬ (TokenStream.cur after).kind.ContinuesExpression) :
    ∃ qs, SameShapes qs nodes ∧ Statements (printedAll nodes ++ after) qs after := by
  induction nodes with
  | nil => exact ⟨[], rfl, .nil⟩
  | cons first rest ih =>
    obtain ⟨hfirst, hrest⟩ := List.forall_mem_cons.mp h
    obtain ⟨hkind, hkindRest⟩ := List.forall_mem_cons.mp hkinds
    obtain ⟨-, hstartsRest⟩ := List.forall_mem_cons.mp hstarts
    have hpairsRest : pairCount CalledBy rest = 0 := by
      cases rest with
      | nil => rfl
      | cons second rest => exact (Nat.add_eq_zero_iff.mp hpairs).2
    obtain ⟨qs, hqs, hstatements⟩ := ih hrest hkindRest hstartsRest hpairsRest
    have hnext : first.kind = .expressionStatement →
        ¬ (TokenStream.cur (printedAll rest ++ after)).kind.ContinuesExpression := by
      intro hexpression
      cases rest with
      | nil => exact hafter
      | cons second rest =>
        obtain ⟨c, chars, t, more, -, ht, hstart⟩ := hstartsRest second List.mem_cons_self
        have hcalled : ¬ CalledBy first second := fun hcalled => by
          rw [pairCount, if_pos hcalled] at hpairs
          omega
        rw [printedAll_cons, ht]
        rcases hstart with ⟨-, hparen⟩ | ⟨-, hword⟩
        · exact absurd ⟨hexpression, by rw [ht]; exact hparen⟩ hcalled
        · exact not_continues_of_isWordlike hword
    obtain ⟨q, hq, hstatement⟩ := hfirst.statement hkind (printedAll rest ++ after) hnext
    refine ⟨q :: qs, hqs.cons hq, ?_⟩
    rw [printedAll_cons, List.append_assoc]
    exact .cons hstatement hstatements

/-! ## Trees -/

/-- Nothing is read as arguments of a call of the statement before it, anywhere in a tree. -/
def Uncalled (node : Node) : Prop := node.Everywhere fun m => calledWeight m = 0

theorem sameShape_conditional {t t' : Token} {c c' k k' : Node} {a a' : Option Node}
    (hc : c'.SameShape c) (hk : k'.SameShape k) (ha : a'.map withoutTokens = a.map withoutTokens) :
    (conditional t' c' k' a').SameShape (conditional t c k a) := by
  cases a <;> cases a' <;> simp_all [SameShape, withoutTokens]

theorem sameShape_of_sameShapes {qs nodes : List Node} (h : SameShapes qs nodes) :
    withoutTokensEach qs = withoutTokensEach nodes := by
  rw [withoutTokensEach_eq_map, withoutTokensEach_eq_map]
  exact h

section Constructs

variable {t : Token} {name value left right condition consequence alternative body callee : Node}
  {operator : String} {statements parameters arguments : List Node}

theorem derived_block (h : ∀ s ∈ statements, s.Derived)
    (hkinds : ∀ s ∈ statements, s.kind.isListed = true) (hstarts : ∀ s ∈ statements, s.StartsAlike)
    (hpairs : pairCount CalledBy statements = 0) : (Node.block t statements).Derived := by
  intro after
  have hbrace : ¬ (TokenStream.cur (TokenKind.rbrace.token :: after)).kind.ContinuesExpression := by
    rw [TokenStream.cur_cons, TokenKind.kind_token]
    decide
  obtain ⟨qs, hqs, hall⟩ := derived_statements statements h hkinds hstarts hpairs _ hbrace
  refine ⟨.block TokenKind.lbrace.token qs, ?_, ?_⟩
  · simp only [SameShape, withoutTokens, sameShape_of_sameShapes hqs]
  · rw [printed_block_append]
    exact .closed rfl hall rfl

theorem derived_letStatement (hname : name.kind = .identifier) (hkind : value.kind.isExpression = true)
    (hvalue : value.Derived) : (letStatement t name value).Derived := by
  intro after _
  obtain ⟨⟨q, hq, hexpr⟩, -⟩ := hvalue.expression hkind (TokenKind.semicolon.token :: after)
  cases name with
  | identifier t' name =>
    refine ⟨.letStatement TokenKind.kwLet.token (.identifier ⟨.ident, name⟩ name) q, ?_, ?_⟩
    · simp only [SameShape, withoutTokens, hq.eq]
    · rw [printed_letStatement_append]
      exact .letStatement rfl rfl rfl (loosen_call hexpr .equals) (.semicolon rfl)
  | _ => cases hname

theorem derived_returnStatement (hkind : value.kind.isExpression = true) (hvalue : value.Derived) :
    (returnStatement t value).Derived := by
  intro after _
  obtain ⟨⟨q, hq, hexpr⟩, -⟩ := hvalue.expression hkind (TokenKind.semicolon.token :: after)
  refine ⟨.returnStatement TokenKind.kwReturn.token q, ?_, ?_⟩
  · simp only [SameShape, withoutTokens, hq.eq]
  · rw [printed_returnStatement_append]
    exact .returnStatement rfl (loosen_call hexpr .equals) (.semicolon rfl)

/-- No semicolon is printed after an expression as a statement, so it ends where nothing goes on with
it. -/
theorem derived_expressionStatement (hkind : value.kind.isExpression = true)
    (hstarts : value.StartsAlike) (hvalue : value.Derived) :
    (expressionStatement t value).Derived := by
  intro after hafter
  obtain ⟨⟨q, hq, hexpr⟩, -⟩ := hvalue.expression hkind after
  obtain ⟨-, -, first, rest, -, hfirst, -⟩ := hstarts
  refine ⟨.expressionStatement first q, by simp only [SameShape, withoutTokens, hq.eq], ?_⟩
  have hcons : value.printed ++ after = first :: (rest ++ after) := by rw [hfirst, List.cons_append]
  rw [hcons] at hexpr
  rw [printed_expressionStatement, hcons]
  exact .expressionStatement (loosen_call hexpr .equals) (.bare (hafter rfl))

theorem derived_integer {n : Nat} (hrange : n ≤ 2 ^ 63 - 1) : (integer t n).Derived :=
  derived_of_operand rfl rfl fun _ =>
    ⟨.integer ⟨.int, Text.Decimal.ofNat n⟩ n, rfl,
      .integer rfl (Text.Decimal.read_ofNat hrange) hrange⟩

theorem derived_boolean (value : Bool) : (boolean t value).Derived := by
  refine derived_of_operand rfl rfl fun after => ?_
  cases value with
  | false => exact ⟨.boolean TokenKind.kwFalse.token false, rfl, .no rfl⟩
  | true => exact ⟨.boolean TokenKind.kwTrue.token true, rfl, .yes rfl⟩

theorem derived_prefixOp (hoperator : operator = "!" ∨ operator = "-")
    (hkind : right.kind.isExpression = true) (hright : right.Derived) :
    (prefixOp t operator right).Derived := by
  refine derived_of_operator rfl rfl fun after => ?_
  obtain ⟨⟨q, hq, hexpr⟩, -⟩ := hright.expression hkind after
  have hop : TokenKind.ofOperator operator = .bang ∨ TokenKind.ofOperator operator = .minus :=
    hoperator.imp (fun h => by rw [h]; decide) (fun h => by rw [h]; decide)
  refine ⟨.prefixOp ⟨.ofOperator operator, operator⟩ operator q, ?_, ?_⟩
  · simp only [SameShape, withoutTokens, hq.eq]
  · have hderived : Expression .prefixOp (⟨.ofOperator operator, operator⟩ ::
        (right.printed ++ after)) (.prefixOp ⟨.ofOperator operator, operator⟩ operator q) after :=
      .prefixOp hop (loosen_call hexpr .prefixOp)
    exact hderived.loosen .equals (by decide)

/-- Both operands are printed as operands, so the operator is derived at its own level. -/
theorem derived_infixOp (hoperator : operator ∈ binaryOperators)
    (hleftKind : left.kind.isExpression = true) (hrightKind : right.kind.isExpression = true)
    (hleft : left.Derived) (hright : right.Derived) : (infixOp t left operator right).Derived := by
  refine derived_of_operator rfl rfl fun after => ?_
  obtain ⟨level, hlevel⟩ := exists_level_ofOperator hoperator
  obtain ⟨⟨r, hr, hrightExpr⟩, -⟩ := hright.expression hrightKind after
  obtain ⟨⟨l, hl, hleftExpr⟩, -⟩ := hleft.expression hleftKind
    (⟨.ofOperator operator, operator⟩ :: (right.printed ++ after))
  refine ⟨.infixOp ⟨.ofOperator operator, operator⟩ l operator r, ?_, ?_⟩
  · simp only [SameShape, withoutTokens, hl.eq, hr.eq]
  · have hderived := Expression.infixOp hlevel (loosen_call hleftExpr level)
      (loosen_call hrightExpr level.tighter)
    rw [bare, List.append_assoc]
    refine hderived.loosen .equals ?_
    cases level <;> first | decide | simp [Precedence.operators] at hlevel

theorem derived_conditional_none (hkind : condition.kind.isExpression = true)
    (hblock : consequence.kind = .block) (hcondition : condition.Derived)
    (hconsequence : consequence.Derived) :
    (conditional t condition consequence none).Derived := by
  refine derived_of_operand rfl rfl fun after => ?_
  obtain ⟨k, hk, hthen⟩ := hconsequence.block hblock after
  obtain ⟨-, c, hc, hexpr⟩ := hcondition.expression hkind
    (TokenKind.rparen.token :: (consequence.printed ++ after))
  refine ⟨.conditional TokenKind.kwIf.token c k none, sameShape_conditional hc hk rfl, ?_⟩
  rw [printed_conditional_none_append, conditionTokens_eq, List.cons_append, List.append_assoc]
  exact .conditional rfl rfl hexpr rfl (.one hthen)

theorem derived_conditional_some (hkind : condition.kind.isExpression = true)
    (hblock : consequence.kind = .block) (hother : alternative.kind = .block)
    (hcondition : condition.Derived) (hconsequence : consequence.Derived)
    (halternative : alternative.Derived) :
    (conditional t condition consequence (some alternative)).Derived := by
  refine derived_of_operand rfl rfl fun after => ?_
  obtain ⟨o, ho, helse⟩ := halternative.block hother after
  obtain ⟨k, hk, hthen⟩ := hconsequence.block hblock
    (TokenKind.kwElse.token :: (alternative.printed ++ after))
  obtain ⟨-, c, hc, hexpr⟩ := hcondition.expression hkind
    (TokenKind.rparen.token :: (consequence.printed ++ TokenKind.kwElse.token ::
      (alternative.printed ++ after)))
  refine ⟨.conditional TokenKind.kwIf.token c k (some o),
    sameShape_conditional hc hk (congrArg some ho), ?_⟩
  rw [printed_conditional_some_append, conditionTokens_eq, List.cons_append, List.append_assoc]
  exact .conditional rfl rfl hexpr rfl (.two hthen rfl helse)

theorem derived_function (hnames : ∀ p ∈ parameters, p.kind = .identifier)
    (hblock : body.kind = .block) (hbody : body.Derived) : (function t parameters body).Derived := by
  refine derived_of_operand rfl rfl fun after => ?_
  obtain ⟨b, hb, hblock⟩ := hbody.block hblock after
  obtain ⟨qs, hqs, hparameters⟩ := derived_parameters parameters hnames (body.printed ++ after)
  refine ⟨.function TokenKind.kwFunction.token qs b, ?_, ?_⟩
  · simp only [SameShape, withoutTokens, sameShape_of_sameShapes hqs, hb.eq]
  · rw [printed_function_append]
    exact .function rfl rfl hparameters hblock

theorem derived_call (hkind : callee.kind.isExpression = true)
    (hkinds : ∀ a ∈ arguments, a.kind.isExpression = true) (hcallee : callee.Derived)
    (harguments : ∀ a ∈ arguments, a.Derived) : (call t callee arguments).Derived := by
  refine derived_of_operand rfl rfl fun after => ?_
  obtain ⟨qs, hqs, hlist⟩ := derived_arguments arguments harguments hkinds after
  obtain ⟨⟨c, hc, hexpr⟩, -⟩ := hcallee.expression hkind
    (TokenKind.lparen.token :: (printedCommas arguments ++ TokenKind.rparen.token :: after))
  refine ⟨.call TokenKind.lparen.token c qs, ?_, ?_⟩
  · simp only [SameShape, withoutTokens, sameShape_of_sameShapes hqs, hc.eq]
  · rw [printed_call_append]
    exact .call hexpr rfl hlist

end Constructs

/-- The tokens of a well-formed tree without called statements derive it. -/
theorem derived_of_uncalled (h : node.WellFormed) (huncalled : node.Uncalled) : node.Derived := by
  induction node using childInduction with
  | step node ih =>
    obtain ⟨hfit, hchildren⟩ := wellFormed_iff.mp h
    obtain ⟨hpairs, hbelow⟩ := everywhere_iff.mp huncalled
    replace ih : ∀ child ∈ node.children, child.Derived :=
      fun child hchild => ih child hchild (hchildren child hchild) (hbelow child hchild)
    cases node with
    | program => trivial
    | block t statements =>
      have hstarts : ∀ s ∈ statements, s.StartsAlike :=
        fun s hs => startsAlike (hchildren s hs) (.inr (hfit s hs))
      exact derived_block ih hfit hstarts hpairs
    | letStatement t name value =>
      exact derived_letStatement hfit.2.1 hfit.2.2 (ih value (by simp [children]))
    | returnStatement t value => exact derived_returnStatement hfit.2 (ih value (by simp [children]))
    | expressionStatement t expression =>
      have hstarts := startsAlike (hchildren expression (by simp [children])) (.inl hfit)
      exact derived_expressionStatement hfit hstarts (ih expression (by simp [children]))
    | identifier t value =>
      exact derived_of_operand rfl rfl fun after =>
        ⟨.identifier ⟨.ident, value⟩ value, rfl, .identifier rfl⟩
    | integer t value =>
      obtain ⟨hnonneg, hle⟩ := hfit
      obtain ⟨n, rfl⟩ := Int.eq_ofNat_of_zero_le hnonneg
      exact derived_integer (by omega)
    | boolean t value => exact derived_boolean value
    | prefixOp t operator right =>
      exact derived_prefixOp hfit.1 hfit.2 (ih right (by simp [children]))
    | infixOp t left operator right =>
      exact derived_infixOp hfit.1 hfit.2.1 hfit.2.2 (ih left (by simp [children]))
        (ih right (by simp [children]))
    | conditional t condition consequence alternative =>
      have hcondition := ih condition (by simp [children])
      have hconsequence := ih consequence (by simp [children])
      cases alternative with
      | none => exact derived_conditional_none hfit.2.1 hfit.2.2.1 hcondition hconsequence
      | some other =>
        exact derived_conditional_some hfit.2.1 hfit.2.2.1 (hfit.2.2.2 other rfl) hcondition
          hconsequence (ih other (by simp [children]))
    | function t parameters body =>
      exact derived_function hfit.2.1 hfit.2.2 (ih body (by simp [children]))
    | call t callee arguments =>
      exact derived_call hfit.1 hfit.2 (ih callee (by simp [children]))
        fun a ha => ih a (by simp [children, ha])

/-- The tokens of a well-formed program without called statements derive a program of its shape. -/
theorem exists_derivation_printed (h : node.WellFormed) (hkind : node.kind = .program)
    (huncalled : node.Uncalled) : ∃ q, q.SameShape node ∧ Derivation.Program node.printed q := by
  obtain ⟨hfit, hchildren⟩ := wellFormed_iff.mp h
  obtain ⟨hpairs, hbelow⟩ := everywhere_iff.mp huncalled
  cases node with
  | program t statements =>
    obtain ⟨qs, hqs, hall⟩ := derived_statements statements
      (fun s hs => derived_of_uncalled (hchildren s hs) (hbelow s hs)) hfit
      (fun s hs => startsAlike (hchildren s hs) (.inr (hfit s hs))) hpairs [] (by decide)
    rw [List.append_nil] at hall
    refine ⟨.program .endOfInput qs, ?_, .intro hall⟩
    simp only [SameShape, withoutTokens, sameShape_of_sameShapes hqs]
  | _ => cases hkind

end Monkey.Node
