import Monkey.Proofs.CanonicalText
import Monkey.Proofs.Numeral
import Monkey.Proofs.Shape

/-!
# The tokens that a tree is meant to be printed as

The canonical form of a tree is meant as a sequence of tokens. These tokens are derived as the tree, up
to its own tokens, from any expression on and from every list of statements in which none is called by
the one after it. The number of words among them is that of the tree, and the number of calls exceeds
that of the tree by the number of statements that are called.
-/

namespace Monkey

/-- The token of a kind that has only one spelling. -/
def TokenKind.token (kind : TokenKind) : Token := ⟨kind, kind.spelling⟩

@[simp]
theorem TokenKind.kind_token (kind : TokenKind) : kind.token.kind = kind := rfl

/-- The kind of the operator with a spelling. -/
def TokenKind.ofOperator (operator : String) : TokenKind :=
  (([.bang, .plus, .minus, .asterisk, .slash, .eq, .notEq, .lt, .gt] : List TokenKind).find?
    fun kind => kind.spelling == operator).getD .illegal

/-- The tokens of a condition: in parentheses, unless it has them already. -/
def conditionTokens (parenthesized : Bool) (stream : List Token) : List Token :=
  if parenthesized then stream
  else TokenKind.lparen.token :: (stream ++ [TokenKind.rparen.token])

namespace Node

mutual

/-- The tokens that the canonical form of a tree is meant as. -/
def printed : Node → List Token
  | program _ statements => (printedEach statements).flatten
  | letStatement _ name value =>
    TokenKind.kwLet.token :: (name.printed ++ TokenKind.assign.token ::
      (value.printed ++ [TokenKind.semicolon.token]))
  | identifier _ value => [⟨.ident, value⟩]
  | returnStatement _ value =>
    TokenKind.kwReturn.token :: (value.printed ++ [TokenKind.semicolon.token])
  | expressionStatement _ expression => expression.printed
  | integer _ value => [⟨.int, Text.Decimal.ofInt value⟩]
  | prefixOp _ operator right =>
    TokenKind.lparen.token :: ⟨.ofOperator operator, operator⟩ ::
      (right.printed ++ [TokenKind.rparen.token])
  | infixOp _ left operator right =>
    TokenKind.lparen.token :: (left.printed ++ ⟨.ofOperator operator, operator⟩ ::
      (right.printed ++ [TokenKind.rparen.token]))
  | boolean _ value => [if value then TokenKind.kwTrue.token else TokenKind.kwFalse.token]
  | conditional _ condition consequence none =>
    TokenKind.kwIf.token ::
      (conditionTokens condition.isParenthesized condition.printed ++ consequence.printed)
  | conditional _ condition consequence (some alternative) =>
    TokenKind.kwIf.token ::
      (conditionTokens condition.isParenthesized condition.printed ++
        (consequence.printed ++ TokenKind.kwElse.token :: alternative.printed))
  | block _ statements =>
    TokenKind.lbrace.token :: ((printedEach statements).flatten ++ [TokenKind.rbrace.token])
  | function _ parameters body =>
    TokenKind.kwFunction.token :: TokenKind.lparen.token ::
      ([TokenKind.comma.token].intercalate (printedEach parameters) ++
        TokenKind.rparen.token :: body.printed)
  | call _ callee arguments =>
    callee.printed ++ TokenKind.lparen.token ::
      ([TokenKind.comma.token].intercalate (printedEach arguments) ++ [TokenKind.rparen.token])

/-- The tokens of each tree of a list. -/
def printedEach : List Node → List (List Token)
  | [] => []
  | node :: rest => node.printed :: printedEach rest

end

/-- The tokens of statements one after the other. -/
def printedAll (statements : List Node) : List Token := (printedEach statements).flatten

/-- The tokens of trees with commas between them. -/
def printedCommas (nodes : List Node) : List Token :=
  [TokenKind.comma.token].intercalate (printedEach nodes)

@[simp]
theorem printedAll_nil : printedAll [] = [] := rfl

@[simp]
theorem printedAll_cons (node : Node) (rest : List Node) :
    printedAll (node :: rest) = node.printed ++ printedAll rest := rfl

@[simp]
theorem printedCommas_nil : printedCommas [] = [] := rfl

@[simp]
theorem printedCommas_singleton (node : Node) : printedCommas [node] = node.printed := by
  simp [printedCommas, printedEach]

theorem printedCommas_cons_cons (node next : Node) (rest : List Node) :
    printedCommas (node :: next :: rest) =
      node.printed ++ TokenKind.comma.token :: printedCommas (next :: rest) := by
  simp [printedCommas, printedEach, List.intercalate_cons_cons]

/-! ## The tokens of each construct, by themselves and in front of others -/

section Constructs

variable (t : Token) (after : List Token)

theorem printed_block (statements : List Node) : (block t statements).printed =
    TokenKind.lbrace.token :: (printedAll statements ++ [TokenKind.rbrace.token]) := rfl

theorem printed_letStatement (name value : Node) : (letStatement t name value).printed =
    TokenKind.kwLet.token :: (name.printed ++ TokenKind.assign.token ::
      (value.printed ++ [TokenKind.semicolon.token])) := rfl

theorem printed_returnStatement (value : Node) : (returnStatement t value).printed =
    TokenKind.kwReturn.token :: (value.printed ++ [TokenKind.semicolon.token]) := rfl

theorem printed_expressionStatement (expression : Node) :
    (expressionStatement t expression).printed = expression.printed := rfl

theorem printed_prefixOp (operator : String) (right : Node) : (prefixOp t operator right).printed =
    TokenKind.lparen.token :: ⟨.ofOperator operator, operator⟩ ::
      (right.printed ++ [TokenKind.rparen.token]) := rfl

theorem printed_infixOp (left : Node) (operator : String) (right : Node) :
    (infixOp t left operator right).printed =
      TokenKind.lparen.token :: (left.printed ++ ⟨.ofOperator operator, operator⟩ ::
        (right.printed ++ [TokenKind.rparen.token])) := rfl

theorem printed_conditional_none (condition consequence : Node) :
    (conditional t condition consequence none).printed =
      TokenKind.kwIf.token :: (conditionTokens condition.isParenthesized condition.printed ++
        consequence.printed) := rfl

theorem printed_conditional_some (condition consequence alternative : Node) :
    (conditional t condition consequence (some alternative)).printed =
      TokenKind.kwIf.token :: (conditionTokens condition.isParenthesized condition.printed ++
        (consequence.printed ++ TokenKind.kwElse.token :: alternative.printed)) := rfl

theorem printed_function (parameters : List Node) (body : Node) :
    (function t parameters body).printed = TokenKind.kwFunction.token :: TokenKind.lparen.token ::
      (printedCommas parameters ++ TokenKind.rparen.token :: body.printed) := rfl

theorem printed_call (callee : Node) (arguments : List Node) : (call t callee arguments).printed =
    callee.printed ++ TokenKind.lparen.token ::
      (printedCommas arguments ++ [TokenKind.rparen.token]) := rfl

theorem printed_block_append (statements : List Node) : (block t statements).printed ++ after =
    TokenKind.lbrace.token :: (printedAll statements ++ TokenKind.rbrace.token :: after) := by
  simp [printed_block]

theorem printed_letStatement_append (name value : Node) :
    (letStatement t name value).printed ++ after =
      TokenKind.kwLet.token :: (name.printed ++ TokenKind.assign.token ::
        (value.printed ++ TokenKind.semicolon.token :: after)) := by
  simp [printed_letStatement]

theorem printed_returnStatement_append (value : Node) :
    (returnStatement t value).printed ++ after =
      TokenKind.kwReturn.token :: (value.printed ++ TokenKind.semicolon.token :: after) := by
  simp [printed_returnStatement]

theorem printed_prefixOp_append (operator : String) (right : Node) :
    (prefixOp t operator right).printed ++ after =
      TokenKind.lparen.token :: ⟨.ofOperator operator, operator⟩ ::
        (right.printed ++ TokenKind.rparen.token :: after) := by
  simp [printed_prefixOp]

theorem printed_infixOp_append (left : Node) (operator : String) (right : Node) :
    (infixOp t left operator right).printed ++ after =
      TokenKind.lparen.token :: (left.printed ++ ⟨.ofOperator operator, operator⟩ ::
        (right.printed ++ TokenKind.rparen.token :: after)) := by
  simp [printed_infixOp]

theorem printed_conditional_none_append (condition consequence : Node) :
    (conditional t condition consequence none).printed ++ after =
      TokenKind.kwIf.token :: (conditionTokens condition.isParenthesized condition.printed ++
        (consequence.printed ++ after)) := by
  simp [printed_conditional_none]

theorem printed_conditional_some_append (condition consequence alternative : Node) :
    (conditional t condition consequence (some alternative)).printed ++ after =
      TokenKind.kwIf.token :: (conditionTokens condition.isParenthesized condition.printed ++
        (consequence.printed ++ TokenKind.kwElse.token :: (alternative.printed ++ after))) := by
  simp [printed_conditional_some]

theorem printed_function_append (parameters : List Node) (body : Node) :
    (function t parameters body).printed ++ after =
      TokenKind.kwFunction.token :: TokenKind.lparen.token ::
        (printedCommas parameters ++ TokenKind.rparen.token :: (body.printed ++ after)) := by
  simp [printed_function]

theorem printed_call_append (callee : Node) (arguments : List Node) :
    (call t callee arguments).printed ++ after =
      callee.printed ++ TokenKind.lparen.token ::
        (printedCommas arguments ++ TokenKind.rparen.token :: after) := by
  simp [printed_call]

end Constructs

/-! ## Operators -/

/-- A binary operator belongs to a level. -/
theorem exists_level_ofOperator {operator : String} (h : operator ∈ binaryOperators) :
    ∃ level : Precedence, TokenKind.ofOperator operator ∈ level.operators := by
  simp only [binaryOperators, List.mem_cons, List.not_mem_nil, or_false] at h
  rcases h with rfl | rfl | rfl | rfl | rfl | rfl | rfl | rfl
  · exact ⟨.sum, by decide⟩
  · exact ⟨.sum, by decide⟩
  · exact ⟨.product, by decide⟩
  · exact ⟨.product, by decide⟩
  · exact ⟨.equals, by decide⟩
  · exact ⟨.equals, by decide⟩
  · exact ⟨.lessGreater, by decide⟩
  · exact ⟨.lessGreater, by decide⟩

/-- An operator is no word and does not end an expression. -/
theorem ofOperator_of_mem {operator : String} (h : operator = "!" ∨ operator ∈ binaryOperators) :
    (TokenKind.ofOperator operator).isWordlike = false ∧
      (TokenKind.ofOperator operator).endsExpression = false ∧
      TokenKind.ofOperator operator ≠ .lparen := by
  simp only [binaryOperators, List.mem_cons, List.not_mem_nil, or_false] at h
  rcases h with rfl | rfl | rfl | rfl | rfl | rfl | rfl | rfl | rfl <;> decide

/-- The operators before an operand are `!` and one of those between two operands. -/
theorem ofOperator_of_unary {operator : String} (h : operator = "!" ∨ operator = "-") :
    operator = "!" ∨ operator ∈ binaryOperators := by
  refine h.imp_right fun hminus => ?_
  rw [hminus]
  decide

/-! ## First characters and first tokens -/

/-- The characters of a tree start with an opening parenthesis where its tokens do, and both start
with a word or a number otherwise. -/
def StartsAlike (node : Node) : Prop :=
  ∃ c chars t rest, node.text = c :: chars ∧ node.printed = t :: rest ∧
    ((c = '(' ∧ t.kind = .lparen) ∨
      ((isWordStart c = true ∨ isDigit c = true) ∧ t.kind.isWordlike = true))

/-- A node starts like its first part. -/
theorem StartsAlike.append {node first : Node} {chars : List Char} {rest : List Token}
    (h : first.StartsAlike) (htext : node.text = first.text ++ chars)
    (hprinted : node.printed = first.printed ++ rest) : node.StartsAlike := by
  obtain ⟨c, chars', t, rest', hc, ht, hstart⟩ := h
  exact ⟨c, chars' ++ chars, t, rest' ++ rest, by simp [htext, hc], by simp [hprinted, ht], hstart⟩

/-- Expressions and statements of well-formed trees start alike. -/
theorem startsAlike {node : Node} (h : node.WellFormed)
    (hkind : node.kind.isExpression = true ∨ node.kind.isListed = true) : node.StartsAlike := by
  induction node using childInduction with
  | step node ih =>
    obtain ⟨hfit, hchildren⟩ := wellFormed_iff.mp h
    cases node with
    | program | block => simp [kind, NodeKind.isExpression, NodeKind.isListed] at hkind
    | letStatement t name value =>
      refine ⟨'l', _, _, _, by rw [text_letStatement, hfit.1]; rfl, rfl, .inr ⟨.inl ?_, rfl⟩⟩
      decide
    | returnStatement t value =>
      refine ⟨'r', _, _, _, by rw [text_returnStatement, hfit.1]; rfl, rfl, .inr ⟨.inl ?_, rfl⟩⟩
      decide
    | expressionStatement t expression =>
      have hfirst := ih expression (by simp [children]) (hchildren _ (by simp [children])) (.inl hfit)
      exact hfirst.append (List.append_nil _).symm (List.append_nil _).symm
    | identifier t value =>
      obtain ⟨c, rest, hchars, hstart, -⟩ := hfit.1
      exact ⟨c, rest, _, _, hchars, rfl, .inr ⟨.inl hstart, rfl⟩⟩
    | integer t value =>
      obtain ⟨n, rfl⟩ := Int.eq_ofNat_of_zero_le hfit.1
      have hnumber := Text.Decimal.isNumber_digits n
      obtain ⟨c, rest, hchars⟩ := List.exists_cons_of_ne_nil hnumber.1
      have hdigit : isDigit c = true := hnumber.2 c (by simp [hchars])
      exact ⟨c, rest, _, _, (text_integer t n).trans hchars, rfl, .inr ⟨.inr hdigit, rfl⟩⟩
    | prefixOp => exact ⟨'(', _, _, _, text_prefixOp .., rfl, .inl ⟨rfl, rfl⟩⟩
    | infixOp => exact ⟨'(', _, _, _, text_infixOp .., rfl, .inl ⟨rfl, rfl⟩⟩
    | boolean t value =>
      cases value with
      | false => exact ⟨'f', _, _, _, by rw [text_boolean]; rfl, rfl, .inr ⟨.inl (by decide), rfl⟩⟩
      | true => exact ⟨'t', _, _, _, by rw [text_boolean]; rfl, rfl, .inr ⟨.inl (by decide), rfl⟩⟩
    | conditional t condition consequence alternative =>
      cases alternative with
      | none =>
        refine ⟨'i', _, _, _, by rw [text_conditional_none, hfit.1]; rfl, rfl, .inr ⟨.inl ?_, rfl⟩⟩
        decide
      | some other =>
        refine ⟨'i', _, _, _, by rw [text_conditional_some, hfit.1]; rfl, rfl, .inr ⟨.inl ?_, rfl⟩⟩
        decide
    | function t parameters body =>
      refine ⟨'f', _, _, _, by rw [text_function, hfit.1]; rfl, rfl, .inr ⟨.inl ?_, rfl⟩⟩
      decide
    | call t callee arguments =>
      have hfirst := ih callee (by simp [children]) (hchildren _ (by simp [children])) (.inl hfit.1)
      exact hfirst.append (text_call t callee arguments) rfl

/-! ## Neighbouring statements -/

/-- The statements of a program or a block. -/
def statements : Node → List Node
  | program _ all | block _ all => all
  | _ => []

/-- The number of neighbours in a list that are in a relation. -/
def pairCount (related : Node → Node → Prop) [DecidableRel related] : List Node → Nat
  | first :: second :: rest =>
    (if related first second then 1 else 0) + pairCount related (second :: rest)
  | _ => 0

/-- The second of two neighbouring statements is read as arguments of a call of the first one. -/
def CalledBy (first second : Node) : Prop :=
  first.kind = .expressionStatement ∧ (TokenStream.cur second.printed).kind = .lparen

instance : DecidableRel CalledBy := fun _ _ => inferInstanceAs (Decidable (_ ∧ _))

/-- The number of statements below a node itself that are read as arguments of a call. -/
def calledWeight (node : Node) : Nat := pairCount CalledBy node.statements

/-! ## Counting words and calls of the tokens of a tree -/

theorem wordCount_append (front back : List Token) :
    wordCount (front ++ back) = wordCount front + wordCount back := List.countP_append

theorem wordCount_printedAll {statements : List Node}
    (h : ∀ s ∈ statements, wordCount s.printed = total wordWeight s) :
    wordCount (printedAll statements) = totalAll wordWeight statements := by
  induction statements with
  | nil => rfl
  | cons first rest ih =>
    obtain ⟨hfirst, hrest⟩ := List.forall_mem_cons.mp h
    rw [printedAll_cons, wordCount_append, totalAll_cons, hfirst, ih hrest]

theorem wordCount_printedCommas {nodes : List Node}
    (h : ∀ n ∈ nodes, wordCount n.printed = total wordWeight n) :
    wordCount (printedCommas nodes) = totalAll wordWeight nodes := by
  induction nodes with
  | nil => rfl
  | cons first rest ih =>
    obtain ⟨hfirst, hrest⟩ := List.forall_mem_cons.mp h
    cases rest with
    | nil => simp [hfirst]
    | cons next rest =>
      rw [printedCommas_cons_cons, wordCount_append, wordCount_cons, totalAll_cons, hfirst, ih hrest]
      simp [TokenKind.isWordlike]

theorem wordCount_conditionTokens (parenthesized : Bool) (stream : List Token) :
    wordCount (conditionTokens parenthesized stream) = wordCount stream := by
  cases parenthesized <;>
    simp [conditionTokens, wordCount_cons, wordCount_append, TokenKind.isWordlike]

/-- The tokens of a well-formed tree have as many words as the tree. -/
theorem wordCount_printed {node : Node} (h : node.WellFormed) :
    wordCount node.printed = total wordWeight node := by
  induction node using childInduction with
  | step node ih =>
    obtain ⟨hfit, hchildren⟩ := wellFormed_iff.mp h
    have ih : ∀ child ∈ node.children, wordCount child.printed = total wordWeight child :=
      fun child hchild => ih child hchild (hchildren child hchild)
    rw [total_eq]
    cases node with
    | program t statements => exact (wordCount_printedAll ih).trans (Nat.zero_add _).symm
    | block t statements =>
      have hall : wordCount (printedAll statements) = _ := wordCount_printedAll ih
      simp [printed_block, wordCount_cons, wordCount_append, hall, TokenKind.isWordlike, wordWeight,
        children]
    | letStatement t name value =>
      simp [printed_letStatement, wordCount_cons, wordCount_append, ih name (by simp [children]),
        ih value (by simp [children]), TokenKind.isWordlike, wordWeight, children]
    | returnStatement t value =>
      simp [printed_returnStatement, wordCount_cons, wordCount_append, ih value (by simp [children]),
        TokenKind.isWordlike, wordWeight, children]
    | expressionStatement t expression =>
      simp [printed_expressionStatement, ih expression (by simp [children]), wordWeight, children]
    | identifier | integer =>
      simp [printed, wordCount_cons, TokenKind.isWordlike, wordWeight, children]
    | boolean t value =>
      cases value <;> simp [printed, wordCount_cons, TokenKind.isWordlike, wordWeight, children]
    | prefixOp t operator right =>
      have hoperator := (ofOperator_of_mem (ofOperator_of_unary hfit.1)).1
      rw [printed_prefixOp, wordCount_cons_of_not rfl, wordCount_cons_of_not hoperator, wordCount_append,
        ih right (by simp [children])]
      simp [wordCount_cons, TokenKind.isWordlike, wordWeight, children]
    | infixOp t left operator right =>
      have hoperator := (ofOperator_of_mem (.inr hfit.1)).1
      rw [printed_infixOp, wordCount_cons_of_not rfl, wordCount_append, wordCount_cons_of_not hoperator,
        wordCount_append, ih left (by simp [children]), ih right (by simp [children])]
      simp [wordCount_cons, TokenKind.isWordlike, wordWeight, children]
    | conditional t condition consequence alternative =>
      cases alternative with
      | none =>
        simp [printed_conditional_none, wordCount_cons, wordCount_append, wordCount_conditionTokens,
          ih condition (by simp [children]), ih consequence (by simp [children]),
          TokenKind.isWordlike, wordWeight, children]
      | some other =>
        simp [printed_conditional_some, wordCount_cons, wordCount_append, wordCount_conditionTokens,
          ih condition (by simp [children]), ih consequence (by simp [children]),
          ih other (by simp [children]), TokenKind.isWordlike, wordWeight, children]
        omega
    | function t parameters body =>
      have hall : wordCount (printedCommas parameters) = _ :=
        wordCount_printedCommas fun p hp => ih p (by simp [children, hp])
      simp [printed_function, wordCount_cons, wordCount_append, hall, ih body (by simp [children]),
        totalAll_append, TokenKind.isWordlike, wordWeight, children]
    | call t callee arguments =>
      have hall : wordCount (printedCommas arguments) = _ :=
        wordCount_printedCommas fun a ha => ih a (by simp [children, ha])
      simp [printed_call, wordCount_cons, wordCount_append, hall, ih callee (by simp [children]),
        TokenKind.isWordlike, wordWeight, children]

/-- What follows a tree is counted as a call if the tree ends in an expression or a block. -/
def trailing (node : Node) (after : List Token) : Nat :=
  if node.kind = .letStatement ∨ node.kind = .returnStatement then 0 else opening after

/-- No call is counted where no parenthesis opens. -/
theorem trailing_eq_zero {node : Node} {after : List Token} (h : opening after = 0) :
    node.trailing after = 0 := by
  rw [trailing, h, ite_self]

/-- What follows an expression is counted as a call if it opens one. -/
theorem trailing_of_isExpression {node : Node} (h : node.kind.isExpression = true)
    (after : List Token) : node.trailing after = opening after := by
  rw [trailing, if_neg]
  rintro (hkind | hkind) <;> rw [hkind] at h <;> cases h

/-- What follows a block is counted as a call if it opens one. -/
theorem trailing_of_block {node : Node} (h : node.kind = .block) (after : List Token) :
    node.trailing after = opening after := by
  rw [trailing, h]
  exact if_neg (by decide)

/-- The calls among the tokens of a tree and what follows it are those of the tree, those of the
statements in it that are called, and those after it. -/
def CallsCounted (node : Node) : Prop :=
  ∀ after : List Token, callCount (node.printed ++ after) =
    total callWeight node + total calledWeight node + node.trailing after + callCount after

/-- A parenthesis opens after a statement exactly if the next one starts with it. -/
theorem opening_printed_append {node : Node} (h : node.StartsAlike) (after : List Token) :
    opening (node.printed ++ after) =
      if (TokenStream.cur node.printed).kind = .lparen then 1 else 0 := by
  obtain ⟨c, chars, t, rest, -, ht, -⟩ := h
  rw [ht]
  rfl

theorem callCount_printedAll (statements : List Node) (after : List Token)
    (h : ∀ s ∈ statements, s.CallsCounted) (hstarts : ∀ s ∈ statements, s.StartsAlike)
    (hlisted : ∀ s ∈ statements, s.kind.isListed = true) (hafter : opening after = 0) :
    callCount (printedAll statements ++ after) =
      totalAll callWeight statements + totalAll calledWeight statements +
        pairCount CalledBy statements + callCount after := by
  induction statements with
  | nil => simp [pairCount]
  | cons first rest ih =>
    obtain ⟨hfirst, hrest⟩ := List.forall_mem_cons.mp h
    obtain ⟨-, hstartsRest⟩ := List.forall_mem_cons.mp hstarts
    obtain ⟨hfirstListed, hrestListed⟩ := List.forall_mem_cons.mp hlisted
    have hcount := ih hrest hstartsRest hrestListed
    rw [printedAll_cons, List.append_assoc, hfirst, hcount, totalAll_cons, totalAll_cons]
    cases rest with
    | nil =>
      rw [printedAll_nil, List.nil_append, trailing_eq_zero hafter]
      simp only [pairCount, totalAll_nil]
      omega
    | cons second rest =>
      have hpair : first.trailing (printedAll (second :: rest) ++ after) =
          if CalledBy first second then 1 else 0 := by
        rw [trailing, printedAll_cons, List.append_assoc,
          opening_printed_append (hstartsRest second List.mem_cons_self)]
        cases hkind : first.kind <;>
          simp [CalledBy, hkind, NodeKind.isListed] at hfirstListed ⊢
      rw [hpair, pairCount]
      omega

theorem callCount_printedCommas (nodes : List Node) (after : List Token)
    (h : ∀ n ∈ nodes, n.CallsCounted) :
    callCount (printedCommas nodes ++ TokenKind.rparen.token :: after) =
      totalAll callWeight nodes + totalAll calledWeight nodes +
        callCount (TokenKind.rparen.token :: after) := by
  induction nodes with
  | nil => simp
  | cons first rest ih =>
    obtain ⟨hfirst, hrest⟩ := List.forall_mem_cons.mp h
    cases rest with
    | nil =>
      rw [printedCommas_singleton, hfirst, trailing_eq_zero (opening_cons_of_ne (by decide) _)]
      simp only [totalAll_cons, totalAll_nil]
      omega
    | cons next rest =>
      rw [printedCommas_cons_cons, List.append_assoc, List.cons_append, hfirst,
        trailing_eq_zero (opening_cons_of_ne (by decide) _), callCount_cons_of_not rfl, ih hrest]
      simp only [totalAll_cons]
      omega

/-- Parentheses around a condition are not counted. -/
theorem callCount_conditionTokens {condition : Node} (after : List Token)
    (h : condition.CallsCounted) (hafter : opening after = 0) :
    callCount (conditionTokens condition.isParenthesized condition.printed ++ after) =
      total callWeight condition + total calledWeight condition + callCount after := by
  cases condition.isParenthesized with
  | true =>
    rw [conditionTokens, if_pos rfl, h, trailing_eq_zero hafter]
    omega
  | false =>
    rw [conditionTokens, if_neg Bool.false_ne_true, List.cons_append, List.append_assoc,
      List.singleton_append, callCount_cons_of_not rfl, h,
      trailing_eq_zero (opening_cons_of_ne (by decide) _), callCount_cons_of_ends rfl, hafter]
    omega

/-- No parenthesis opens where a block starts. -/
theorem opening_printed_of_block {node : Node} (h : node.kind = .block) (after : List Token) :
    opening (node.printed ++ after) = 0 := by
  cases node <;> first | rfl | cases h

/-- A node without a list of statements has no calls other than its own and those below it. -/
theorem callsCounted_of_no_statements {node : Node} (hnone : node.statements = [])
    (h : ∀ after, callCount (node.printed ++ after) = callWeight node +
      totalAll callWeight node.children + totalAll calledWeight node.children +
        node.trailing after + callCount after) : node.CallsCounted := by
  intro after
  have hcalled : calledWeight node = 0 := by rw [calledWeight, hnone]; rfl
  rw [h, total_eq callWeight, total_eq calledWeight, hcalled, Nat.zero_add]

section Constructs

variable {t : Token} {name value left right condition consequence alternative body callee : Node}
  {operator : String} {statements parameters arguments : List Node}

theorem callsCounted_block (h : ∀ s ∈ statements, s.CallsCounted)
    (hstarts : ∀ s ∈ statements, s.StartsAlike)
    (hlisted : ∀ s ∈ statements, s.kind.isListed = true) : (block t statements).CallsCounted := by
  intro after
  have hall := callCount_printedAll statements (TokenKind.rbrace.token :: after) h hstarts hlisted
    (opening_cons_of_ne (by decide) _)
  rw [printed_block_append, callCount_cons_of_not rfl, hall, callCount_cons_of_ends rfl,
    trailing_of_block rfl, total_eq callWeight, total_eq calledWeight]
  simp only [callWeight, calledWeight, Node.statements, children]
  omega

theorem callsCounted_letStatement (hname : name.CallsCounted) (hvalue : value.CallsCounted) :
    (letStatement t name value).CallsCounted := by
  refine callsCounted_of_no_statements rfl fun after => ?_
  rw [printed_letStatement_append, callCount_cons_of_not rfl, hname,
    trailing_eq_zero (opening_cons_of_ne (by decide) _), callCount_cons_of_not rfl, hvalue,
    trailing_eq_zero (opening_cons_of_ne (by decide) _), callCount_cons_of_not rfl]
  simp only [callWeight, children, totalAll_cons, totalAll_nil, trailing, kind, true_or, if_true]
  omega

theorem callsCounted_returnStatement (hvalue : value.CallsCounted) :
    (returnStatement t value).CallsCounted := by
  refine callsCounted_of_no_statements rfl fun after => ?_
  rw [printed_returnStatement_append, callCount_cons_of_not rfl, hvalue,
    trailing_eq_zero (opening_cons_of_ne (by decide) _), callCount_cons_of_not rfl]
  simp only [callWeight, children, totalAll_cons, totalAll_nil, trailing, kind, or_true, if_true]
  omega

theorem callsCounted_expressionStatement (hkind : value.kind.isExpression = true)
    (hvalue : value.CallsCounted) : (expressionStatement t value).CallsCounted := by
  refine callsCounted_of_no_statements rfl fun after => ?_
  rw [printed_expressionStatement, hvalue, trailing_of_isExpression hkind]
  simp only [callWeight, children, totalAll_cons, totalAll_nil, trailing, kind, reduceCtorEq, or_self,
    if_false]
  omega

/-- A token that is an expression by itself is no call, but what follows it may make it one. -/
theorem callsCounted_of_token {node : Node} {last : Token} (hprinted : node.printed = [last])
    (hlast : last.kind.endsExpression = true) (hkind : node.kind.isExpression = true)
    (hchildren : node.children = []) (hnone : node.statements = []) (hweight : callWeight node = 0) :
    node.CallsCounted := by
  refine callsCounted_of_no_statements hnone fun after => ?_
  rw [hprinted, List.singleton_append, callCount_cons_of_ends hlast, trailing_of_isExpression hkind,
    hchildren, hweight, totalAll_nil, totalAll_nil]
  omega

theorem callsCounted_prefixOp (hoperator : operator = "!" ∨ operator = "-")
    (hright : right.CallsCounted) : (prefixOp t operator right).CallsCounted := by
  refine callsCounted_of_no_statements rfl fun after => ?_
  have hends := (ofOperator_of_mem (ofOperator_of_unary hoperator)).2.1
  rw [printed_prefixOp_append, callCount_cons_of_not rfl, callCount_cons_of_not hends, hright,
    trailing_eq_zero (opening_cons_of_ne (by decide) _), callCount_cons_of_ends rfl,
    trailing_of_isExpression rfl]
  simp only [callWeight, children, totalAll_cons, totalAll_nil]
  omega

theorem callsCounted_infixOp (hoperator : operator ∈ binaryOperators) (hleft : left.CallsCounted)
    (hright : right.CallsCounted) : (infixOp t left operator right).CallsCounted := by
  refine callsCounted_of_no_statements rfl fun after => ?_
  obtain ⟨-, hends, hparen⟩ := ofOperator_of_mem (.inr hoperator)
  rw [printed_infixOp_append, callCount_cons_of_not rfl, hleft,
    trailing_eq_zero (opening_cons_of_ne hparen _), callCount_cons_of_not hends, hright,
    trailing_eq_zero (opening_cons_of_ne (by decide) _), callCount_cons_of_ends rfl,
    trailing_of_isExpression rfl]
  simp only [callWeight, children, totalAll_cons, totalAll_nil]
  omega

theorem callsCounted_conditional_none (hblock : consequence.kind = .block)
    (hcondition : condition.CallsCounted) (hconsequence : consequence.CallsCounted) :
    (conditional t condition consequence none).CallsCounted := by
  refine callsCounted_of_no_statements rfl fun after => ?_
  rw [printed_conditional_none_append, callCount_cons_of_not rfl,
    callCount_conditionTokens _ hcondition (opening_printed_of_block hblock _), hconsequence,
    trailing_of_block hblock, trailing_of_isExpression rfl]
  simp only [callWeight, children, totalAll_cons, totalAll_nil, Option.toList]
  omega

theorem callsCounted_conditional_some (hblock : consequence.kind = .block)
    (hother : alternative.kind = .block) (hcondition : condition.CallsCounted)
    (hconsequence : consequence.CallsCounted) (halternative : alternative.CallsCounted) :
    (conditional t condition consequence (some alternative)).CallsCounted := by
  refine callsCounted_of_no_statements rfl fun after => ?_
  rw [printed_conditional_some_append, callCount_cons_of_not rfl,
    callCount_conditionTokens _ hcondition (opening_printed_of_block hblock _), hconsequence,
    trailing_eq_zero (opening_cons_of_ne (by decide) _), callCount_cons_of_not rfl, halternative,
    trailing_of_block hother, trailing_of_isExpression rfl]
  simp only [callWeight, children, totalAll_cons, totalAll_nil, Option.toList]
  omega

theorem callsCounted_function (hblock : body.kind = .block)
    (hparameters : ∀ p ∈ parameters, p.CallsCounted) (hbody : body.CallsCounted) :
    (function t parameters body).CallsCounted := by
  refine callsCounted_of_no_statements rfl fun after => ?_
  rw [printed_function_append, callCount_cons_of_not rfl, callCount_cons_of_not rfl,
    callCount_printedCommas parameters _ hparameters, callCount_cons_of_ends rfl,
    opening_printed_of_block hblock, hbody, trailing_of_block hblock, trailing_of_isExpression rfl]
  simp only [callWeight, children, totalAll_append, totalAll_cons, totalAll_nil]
  omega

theorem callsCounted_call (hkind : callee.kind.isExpression = true) (hcallee : callee.CallsCounted)
    (harguments : ∀ a ∈ arguments, a.CallsCounted) : (call t callee arguments).CallsCounted := by
  refine callsCounted_of_no_statements rfl fun after => ?_
  rw [printed_call_append, hcallee, trailing_of_isExpression hkind, callCount_cons_of_not rfl,
    callCount_printedCommas arguments _ harguments, callCount_cons_of_ends rfl,
    trailing_of_isExpression rfl]
  simp only [callWeight, children, totalAll_cons, opening_cons, TokenKind.kind_token, if_true]
  omega

end Constructs

/-- The calls among the tokens of a well-formed tree are those of the tree and those of the statements
in it that are called. -/
theorem callsCounted {node : Node} (h : node.WellFormed) (hkind : node.kind ≠ .program) :
    node.CallsCounted := by
  induction node using childInduction with
  | step node ih =>
    obtain ⟨hfit, hchildren⟩ := wellFormed_iff.mp h
    replace ih : ∀ child ∈ node.children, child.CallsCounted :=
      fun child hchild => ih child hchild (hchildren child hchild) (hfit.ne_program child hchild)
    cases node with
    | program => exact absurd rfl hkind
    | block t statements =>
      have hstarts : ∀ s ∈ statements, s.StartsAlike :=
        fun s hs => startsAlike (hchildren s hs) (.inr (hfit s hs))
      exact callsCounted_block ih hstarts hfit
    | letStatement t name value =>
      exact callsCounted_letStatement (ih name (by simp [children])) (ih value (by simp [children]))
    | returnStatement t value => exact callsCounted_returnStatement (ih value (by simp [children]))
    | expressionStatement t expression =>
      exact callsCounted_expressionStatement hfit (ih expression (by simp [children]))
    | identifier | integer => exact callsCounted_of_token rfl rfl rfl rfl rfl rfl
    | boolean t value => cases value <;> exact callsCounted_of_token rfl rfl rfl rfl rfl rfl
    | prefixOp t operator right =>
      exact callsCounted_prefixOp hfit.1 (ih right (by simp [children]))
    | infixOp t left operator right =>
      exact callsCounted_infixOp hfit.1 (ih left (by simp [children])) (ih right (by simp [children]))
    | conditional t condition consequence alternative =>
      have hcondition := ih condition (by simp [children])
      have hconsequence := ih consequence (by simp [children])
      cases alternative with
      | none => exact callsCounted_conditional_none hfit.2.2.1 hcondition hconsequence
      | some other =>
        exact callsCounted_conditional_some hfit.2.2.1 (hfit.2.2.2 other rfl) hcondition hconsequence
          (ih other (by simp [children]))
    | function t parameters body =>
      exact callsCounted_function hfit.2.2 (fun p hp => ih p (by simp [children, hp]))
        (ih body (by simp [children]))
    | call t callee arguments =>
      exact callsCounted_call hfit.1 (ih callee (by simp [children]))
        (fun a ha => ih a (by simp [children, ha]))

/-- The calls among the tokens of a well-formed program are those of the program and those of the
statements in it that are called. -/
theorem callCount_program {node : Node} (h : node.WellFormed) (hkind : node.kind = .program) :
    callCount node.printed = total callWeight node + total calledWeight node := by
  obtain ⟨hfit, hchildren⟩ := wellFormed_iff.mp h
  cases node with
  | program t statements =>
    have hall := callCount_printedAll statements []
      (fun s hs => callsCounted (hchildren s hs) (hfit.ne_program s hs))
      (fun s hs => startsAlike (hchildren s hs) (.inr (hfit s hs))) hfit rfl
    rw [List.append_nil] at hall
    rw [total_eq callWeight, total_eq calledWeight]
    refine hall.trans ?_
    simp only [callWeight, calledWeight, Node.statements, children, callCount_nil]
    omega
  | _ => cases hkind

end Node

end Monkey
