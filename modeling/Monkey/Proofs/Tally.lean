import Monkey.Proofs.Derivation
import Monkey.Proofs.Subtree

/-!
# Counting words and calls

Two numbers of a derived tree can be read off its tokens: how many words and numbers it is written
with, and how many calls it has. A call is where an opening parenthesis follows the end of an
expression; a group, a condition or a list of parameters never starts there.
-/

namespace Monkey

/-- Words and numbers, and what no token of the language is. -/
def TokenKind.isWordlike : TokenKind → Bool
  | illegal | ident | int | kwFunction | kwLet | kwTrue | kwFalse | kwIf | kwElse | kwReturn => true
  | _ => false

/-- The kinds of tokens that an expression ends in. -/
def TokenKind.endsExpression : TokenKind → Bool
  | ident | int | kwTrue | kwFalse | rparen | rbrace => true
  | _ => false

/-- The number of words and numbers among tokens. -/
def wordCount (stream : List Token) : Nat := stream.countP fun t => t.kind.isWordlike

/-- One if an opening parenthesis comes next. -/
def opening (stream : List Token) : Nat :=
  if (TokenStream.cur stream).kind = .lparen then 1 else 0

/-- The number of opening parentheses after the end of an expression. -/
def callCount : List Token → Nat
  | [] => 0
  | t :: rest => (if t.kind.endsExpression then opening rest else 0) + callCount rest

@[simp]
theorem wordCount_nil : wordCount [] = 0 := rfl

theorem wordCount_cons (t : Token) (rest : List Token) :
    wordCount (t :: rest) = (if t.kind.isWordlike then 1 else 0) + wordCount rest := by
  rw [wordCount, List.countP_cons, Nat.add_comm]
  rfl

@[simp]
theorem opening_nil : opening [] = 0 := rfl

theorem opening_cons (t : Token) (rest : List Token) :
    opening (t :: rest) = if t.kind = .lparen then 1 else 0 := rfl

@[simp]
theorem callCount_nil : callCount [] = 0 := rfl

theorem callCount_cons (t : Token) (rest : List Token) :
    callCount (t :: rest) = (if t.kind.endsExpression then opening rest else 0) + callCount rest := rfl

/-- No call starts after a token that does not end an expression. -/
theorem callCount_cons_of_not {t : Token} (h : t.kind.endsExpression = false) (rest : List Token) :
    callCount (t :: rest) = callCount rest := by
  rw [callCount_cons, h, if_neg Bool.false_ne_true, Nat.zero_add]

/-- A call starts after the end of an expression if an opening parenthesis comes next. -/
theorem callCount_cons_of_ends {t : Token} (h : t.kind.endsExpression = true) (rest : List Token) :
    callCount (t :: rest) = opening rest + callCount rest := by
  rw [callCount_cons, h, if_pos rfl]

/-- No parenthesis opens where another token comes next. -/
theorem opening_cons_of_ne {t : Token} (h : t.kind ≠ .lparen) (rest : List Token) :
    opening (t :: rest) = 0 := if_neg h

/-- No word is counted where a token of another kind comes next. -/
theorem wordCount_cons_of_not {t : Token} (h : t.kind.isWordlike = false) (rest : List Token) :
    wordCount (t :: rest) = wordCount rest := by
  rw [wordCount_cons, h, if_neg Bool.false_ne_true, Nat.zero_add]

namespace Node

/-- The number of words and numbers that a node adds to the text of the trees below it. -/
def wordWeight : Node → Nat
  | letStatement .. | identifier .. | returnStatement .. | integer .. | boolean .. | function .. => 1
  | conditional _ _ _ none => 1
  | conditional _ _ _ (some _) => 2
  | _ => 0

/-- One for every call. -/
def callWeight : Node → Nat
  | call .. => 1
  | _ => 0

end Node

namespace Derivation

open Node

/-- A tree takes as many words and calls from its tokens as it has, and is followed by a token that is
counted as a call if it opens one. -/
def Tallied (input after : List Token) (words calls following : Nat) : Prop :=
  wordCount input = words + wordCount after ∧
    callCount input = calls + following + callCount after

theorem StatementEnd.tallied {input after : List Token} (h : StatementEnd input after) :
    opening input = 0 ∧ Tallied input after 0 0 0 := by
  cases h with
  | semicolon ht => simp [Tallied, opening_cons, wordCount_cons, callCount_cons, ht,
      TokenKind.isWordlike, TokenKind.endsExpression]
  | bare hnot =>
    have hparen : (TokenStream.cur input).kind ≠ .lparen := fun h => hnot (.inl h)
    simp [Tallied, opening, hparen]

theorem MoreParameters.tallied {input after : List Token} {more : List Node}
    (h : MoreParameters input more after) :
    opening input = 0 ∧
      Tallied input after (totalAll wordWeight more) (totalAll callWeight more) (opening after) := by
  induction h with
  | close ht => simp [Tallied, opening_cons, wordCount_cons, callCount_cons, ht,
      TokenKind.isWordlike, TokenKind.endsExpression]
  | comma hcomma hname _ ih =>
    simp only [Tallied, opening_cons, wordCount_cons, callCount_cons, hcomma, hname,
      TokenKind.isWordlike, TokenKind.endsExpression, totalAll_cons, total_eq _ (identifier _ _),
      children, totalAll_nil, wordWeight, callWeight, reduceCtorEq, Bool.false_eq_true, if_true,
      if_false, true_and] at ih ⊢
    omega

theorem Parameters.tallied {input after : List Token} {parameters : List Node}
    (h : Parameters input parameters after) :
    Tallied input after (totalAll wordWeight parameters) (totalAll callWeight parameters)
      (opening after) := by
  cases h with
  | none ht => simp [Tallied, wordCount_cons, callCount_cons, ht, TokenKind.isWordlike,
      TokenKind.endsExpression]
  | some hname hmore =>
    have hrest := hmore.tallied
    simp only [Tallied, wordCount_cons, callCount_cons, hname, TokenKind.isWordlike,
      TokenKind.endsExpression, totalAll_cons, total_eq _ (identifier _ _), children, totalAll_nil,
      wordWeight, callWeight, if_true] at hrest ⊢
    omega

mutual

theorem Statements.tallied {input after : List Token} {statements : List Node} :
    Statements input statements after →
      Tallied input after (totalAll wordWeight statements) (totalAll callWeight statements) 0
  | .nil => by simp [Tallied]
  | .cons hfirst hmore => by
    have hnode := hfirst.tallied
    have hrest := hmore.tallied
    simp only [Tallied, totalAll_cons] at hnode hrest ⊢
    omega

theorem Statement.tallied {input after : List Token} {node : Node} :
    Statement input node after →
      Tallied input after (total wordWeight node) (total callWeight node) 0
  | .letStatement hlet hname hassign hvalue hend => by
    have hexpr := hvalue.tallied
    have hlast := hend.tallied
    simp only [Tallied, opening_cons, wordCount_cons, callCount_cons, hlet, hname, hassign,
      TokenKind.isWordlike, TokenKind.endsExpression, total_eq _ (letStatement _ _ _),
      total_eq _ (identifier _ _), children, totalAll_cons, totalAll_nil, wordWeight, callWeight,
      reduceCtorEq, Bool.false_eq_true, if_true, if_false] at hexpr hlast ⊢
    omega
  | .returnStatement hreturn hvalue hend => by
    have hexpr := hvalue.tallied
    have hlast := hend.tallied
    simp only [Tallied, wordCount_cons, callCount_cons, hreturn, TokenKind.isWordlike,
      TokenKind.endsExpression, total_eq _ (returnStatement _ _), children, totalAll_cons,
      totalAll_nil, wordWeight, callWeight, Bool.false_eq_true, if_true, if_false] at hexpr hlast ⊢
    omega
  | .expressionStatement hvalue hend => by
    have hexpr := hvalue.tallied
    have hlast := hend.tallied
    simp only [Tallied, total_eq _ (Node.expressionStatement _ _), children, totalAll_cons,
      totalAll_nil, wordWeight, callWeight] at hexpr hlast ⊢
    omega

theorem Block.tallied {input after : List Token} {node : Node} :
    Block input node after →
      Tallied input after (total wordWeight node) (total callWeight node) (opening after)
  | .closed ht hstatements hclose => by
    have hall := hstatements.tallied
    simp only [Tallied, wordCount_cons, callCount_cons, ht, hclose, TokenKind.isWordlike,
      TokenKind.endsExpression, total_eq _ (block _ _), children, wordWeight, callWeight,
      Bool.false_eq_true, if_true, if_false] at hall ⊢
    omega
  | .unclosed ht hstatements => by
    have hall := hstatements.tallied
    simp only [Tallied, wordCount_cons, callCount_cons, ht, TokenKind.isWordlike,
      TokenKind.endsExpression, total_eq _ (block _ _), children, wordWeight, callWeight,
      opening_nil, Bool.false_eq_true, if_false] at hall ⊢
    omega

theorem Expression.tallied {level : Precedence} {input after : List Token} {node : Node} :
    Expression level input node after →
      Tallied input after (total wordWeight node) (total callWeight node) (opening after)
  | @Expression.infixOp level op _ _ _ _ _ hop hleft hright => by
    have hl := hleft.tallied
    have hr := hright.tallied
    have hkind : op.kind.isWordlike = false ∧ op.kind.endsExpression = false ∧
        op.kind ≠ .lparen := by
      cases level <;>
        simp only [Precedence.operators, List.mem_cons, List.not_mem_nil, or_false] at hop <;>
        rcases hop with hop | hop <;> rw [hop] <;> decide
    simp only [Tallied, opening_cons, wordCount_cons, callCount_cons, hkind,
      total_eq _ (Node.infixOp _ _ _ _), children, totalAll_cons, totalAll_nil, wordWeight,
      callWeight, Bool.false_eq_true, if_false] at hl hr ⊢
    omega
  | .tighter _ h => h.tallied
  | @Expression.prefixOp op _ _ _ hop hright => by
    have hr := hright.tallied
    have hkind : op.kind.isWordlike = false ∧ op.kind.endsExpression = false := by
      rcases hop with hop | hop <;> rw [hop] <;> decide
    simp only [Tallied, wordCount_cons, callCount_cons, hkind, total_eq _ (Node.prefixOp _ _ _),
      children, totalAll_cons, totalAll_nil, wordWeight, callWeight, Bool.false_eq_true,
      if_false] at hr ⊢
    omega
  | .call hcallee hparen harguments => by
    have hc := hcallee.tallied
    have ha := harguments.tallied
    simp only [Tallied, opening_cons, wordCount_cons, callCount_cons, hparen, TokenKind.isWordlike,
      TokenKind.endsExpression, total_eq _ (Node.call _ _ _), children, totalAll_cons, wordWeight,
      callWeight, Bool.false_eq_true, if_true, if_false] at hc ha ⊢
    omega
  | .identifier h | .integer h _ _ | .yes h | .no h => by
    simp [Tallied, wordCount_cons, callCount_cons, h, TokenKind.isWordlike,
      TokenKind.endsExpression, total_eq, children, wordWeight, callWeight]
  | .group ht hinner hclose => by
    have hi := hinner.tallied
    simp only [Tallied, opening_cons, wordCount_cons, callCount_cons, ht, hclose,
      TokenKind.isWordlike, TokenKind.endsExpression, reduceCtorEq, Bool.false_eq_true, if_true,
      if_false] at hi ⊢
    omega
  | @Expression.conditional _ _ _ _ _ _ _ _ alternative hif hopen hcondition hclose hbranches => by
    have hc := hcondition.tallied
    have hb := hbranches.tallied
    cases alternative <;>
      simp only [Tallied, opening_cons, wordCount_cons, callCount_cons, hif, hopen, hclose,
        TokenKind.isWordlike, TokenKind.endsExpression, total_eq _ (Node.conditional _ _ _ _),
        children, totalAll_cons, totalAll_nil, wordWeight, callWeight, Option.toList,
        List.length_cons, List.length_nil, reduceCtorEq, Bool.false_eq_true, if_true, if_false] at hc hb ⊢ <;>
      omega
  | @Expression.function _ _ _ mid _ _ _ hfn hopen hparameters hbody => by
    have hp := hparameters.tallied
    have hb := hbody.tallied
    have hbrace : opening mid = 0 := by
      rw [opening, hbody.starts]
      decide
    simp only [Tallied, opening_cons, wordCount_cons, callCount_cons, hfn, hopen,
      TokenKind.isWordlike, TokenKind.endsExpression, total_eq _ (Node.function _ _ _), children,
      totalAll_append, totalAll_cons, totalAll_nil, wordWeight, callWeight, Bool.false_eq_true,
      if_true, if_false] at hp hb ⊢
    omega

theorem Branches.tallied {input after : List Token} {consequence : Node}
    {alternative : Option Node} :
    Branches input consequence alternative after →
      opening input = 0 ∧ Tallied input after
        (total wordWeight consequence + totalAll wordWeight alternative.toList +
          alternative.toList.length)
        (total callWeight consequence + totalAll callWeight alternative.toList) (opening after)
  | .one hblock => by
    have hb := hblock.tallied
    refine ⟨?_, by simpa [Tallied] using hb⟩
    rw [opening, hblock.starts]
    decide
  | .two hfirst helse hsecond => by
    have hf := hfirst.tallied
    have hs := hsecond.tallied
    refine ⟨?_, ?_⟩
    · rw [opening, hfirst.starts]
      decide
    · simp only [Tallied, opening_cons, wordCount_cons, callCount_cons, helse,
        TokenKind.isWordlike, TokenKind.endsExpression, Option.toList, totalAll_cons, totalAll_nil,
        List.length_cons, List.length_nil, reduceCtorEq, Bool.false_eq_true, if_true,
        if_false] at hf hs ⊢
      omega

theorem Arguments.tallied {input after : List Token} {arguments : List Node} :
    Arguments input arguments after →
      Tallied input after (totalAll wordWeight arguments) (totalAll callWeight arguments)
        (opening after)
  | .none ht => by simp [Tallied, wordCount_cons, callCount_cons, ht, TokenKind.isWordlike,
      TokenKind.endsExpression]
  | .some hfirst hmore => by
    have hf := hfirst.tallied
    have hm := hmore.tallied
    simp only [Tallied, totalAll_cons] at hf hm ⊢
    omega

theorem MoreArguments.tallied {input after : List Token} {more : List Node} :
    MoreArguments input more after →
      opening input = 0 ∧
        Tallied input after (totalAll wordWeight more) (totalAll callWeight more) (opening after)
  | .close ht => by simp [Tallied, opening_cons, wordCount_cons, callCount_cons, ht,
      TokenKind.isWordlike, TokenKind.endsExpression]
  | .comma hcomma hargument hmore => by
    have ha := hargument.tallied
    have hm := hmore.tallied
    simp only [Tallied, opening_cons, wordCount_cons, callCount_cons, hcomma, TokenKind.isWordlike,
      TokenKind.endsExpression, totalAll_cons, reduceCtorEq, Bool.false_eq_true, if_false,
      true_and] at ha hm ⊢
    omega

end

/-- A program has as many words and calls as the stream that it is derived from. -/
theorem Program.tallied {stream : List Token} {node : Node} (h : Program stream node) :
    wordCount stream = total wordWeight node ∧ callCount stream = total callWeight node := by
  obtain ⟨hstatements⟩ := h
  have hall := hstatements.tallied
  simp only [Tallied, wordCount_nil, callCount_nil, total_eq _ (Node.program _ _), children,
    wordWeight, callWeight] at hall ⊢
  omega

end Derivation

end Monkey
