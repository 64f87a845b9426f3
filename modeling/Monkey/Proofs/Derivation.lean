import Mathlib.Algebra.Group.Nat.Defs
import Monkey.Node
import Monkey.Grammar.Precedence
import Monkey.Grammar.Rules
import Monkey.Grammar.TokenStream
import Monkey.Text.Decimal

/-!
# The reference grammar

The language as a grammar over tokens, stated without reference to how it is read. Expressions are
stratified: four levels of binary operators, each leaning to the left, then prefix operators, then
calls, then what needs no operator.

A phrase is related to the tokens it starts with and to the tokens that follow it. Looking at what
follows is needed in two places only. A block may lack its closing brace where nothing follows, and
a statement that ends in an expression without a semicolon is not followed by a token that would go
on with that expression.
-/

namespace Monkey

/-- The operators of a binary level. -/
def Precedence.operators : Precedence → List TokenKind
  | equals => [.eq, .notEq]
  | lessGreater => [.lt, .gt]
  | sum => [.plus, .minus]
  | product => [.asterisk, .slash]
  | lowest | prefixOp | call => []

/-- The level whose expressions are the operands of a level. -/
def Precedence.tighter : Precedence → Precedence
  | lowest => equals
  | equals => lessGreater
  | lessGreater => sum
  | sum => product
  | product => prefixOp
  | prefixOp | call => call

/-- The level of the expressions that are read with a precedence around them. An operand of a prefix
operator may start with a prefix operator itself. -/
def Precedence.within : Precedence → Precedence
  | prefixOp => prefixOp
  | level => level.tighter

/-- Whether a token goes on with the expression before it: an opening parenthesis or a binary
operator. -/
def TokenKind.ContinuesExpression (kind : TokenKind) : Prop :=
  kind = .lparen ∨ ∃ level : Precedence, kind ∈ level.operators

namespace Precedence

/-- An operator of a level binds the expression before it as tightly as the level says. -/
theorem ofKind_of_mem_operators {level : Precedence} {kind : TokenKind}
    (h : kind ∈ level.operators) : ofKind kind = level := by
  cases level <;> simp only [operators, List.mem_cons, List.not_mem_nil, or_false] at h <;>
    rcases h with rfl | rfl <;> rfl

/-- A conditional is not gone on with by an operator. -/
theorem not_mem_operators_kwElse {level : Precedence} : .kwElse ∉ level.operators := by
  cases level <;> decide

/-- The operands of a level are one level tighter, except those of a call. -/
theorem level_tighter {level : Precedence} (h : level ≠ call) :
    level.tighter.level = level.level + 1 := by
  cases level <;> first | rfl | exact absurd rfl h

/-- Nothing is tighter than a call. -/
theorem level_le_call (level : Precedence) : level.level ≤ call.level := by
  cases level <;> decide

/-- What is read within a precedence belongs to a level at most one tighter. -/
theorem level_within_le (precedence : Precedence) :
    precedence.within.level ≤ precedence.level + 1 := by
  cases precedence <;> decide

/-- On a level that has operators, what is read within it are their right operands. -/
theorem within_of_mem_operators {level : Precedence} {kind : TokenKind}
    (h : kind ∈ level.operators) : level.within = level.tighter := by
  cases level <;> first | rfl | simp [operators] at h

/-- The level of calls has no operators. -/
theorem ne_call_of_mem_operators {level : Precedence} {kind : TokenKind}
    (h : kind ∈ level.operators) : level ≠ .call := by
  rintro rfl
  simp [operators] at h

/-- A level is determined by its rank. -/
theorem eq_of_level_eq {p q : Precedence} (h : p.level = q.level) : p = q := by
  cases p <;> cases q <;> first | rfl | exact absurd h (by decide)

/-- The lowest rank is one. -/
theorem one_le_level (level : Precedence) : 1 ≤ level.level := by
  cases level <;> decide

/-- An operator of a level goes on with an expression by the rule for operators. -/
theorem infixRule_of_mem_operators {level : Precedence} {kind : TokenKind}
    (h : kind ∈ level.operators) : Rules.standard.infixRule? kind = some .operator := by
  cases level <;> simp only [operators, List.mem_cons, List.not_mem_nil, or_false] at h <;>
    rcases h with rfl | rfl <;> rfl

/-- The rule for operators is for those of some level. -/
theorem mem_operators_of_infixRule {kind : TokenKind}
    (h : Rules.standard.infixRule? kind = some .operator) :
    kind ∈ (ofKind kind).operators := by
  cases kind <;> first | decide | simp [Rules.standard] at h

/-- The rule for calls is for an opening parenthesis only. -/
theorem eq_lparen_of_infixRule {kind : TokenKind}
    (h : Rules.standard.infixRule? kind = some .call) : kind = .lparen := by
  cases kind <;> simp [Rules.standard] at h ⊢

/-- The tokens that go on with an expression are those that bind at all. -/
theorem continuesExpression_iff (kind : TokenKind) :
    kind.ContinuesExpression ↔ lowest < ofKind kind := by
  constructor
  · rintro (rfl | ⟨level, h⟩)
    · decide
    · rw [ofKind_of_mem_operators h]
      cases level <;> first | decide | simp [operators] at h
  · intro h
    cases kind
    case lparen => exact .inl rfl
    case eq | notEq => exact .inr ⟨equals, by decide⟩
    case lt | gt => exact .inr ⟨lessGreater, by decide⟩
    case plus | minus => exact .inr ⟨sum, by decide⟩
    case asterisk | slash => exact .inr ⟨product, by decide⟩
    all_goals exact absurd h (by decide)

instance (kind : TokenKind) : Decidable kind.ContinuesExpression :=
  decidable_of_iff' _ (continuesExpression_iff kind)

/-- A token that does not go on with an expression has the lowest rank. -/
theorem level_ofKind_of_not_continues {kind : TokenKind} (h : ¬ kind.ContinuesExpression) :
    (ofKind kind).level = 1 := by
  rw [continuesExpression_iff] at h
  have hle : (ofKind kind).level ≤ lowest.level := Nat.le_of_not_lt h
  have hge := one_le_level (ofKind kind)
  exact Nat.le_antisymm hle hge

end Precedence

namespace Derivation

/-- The end of a statement: a semicolon, or a token that does not go on with the expression. -/
inductive StatementEnd : List Token → List Token → Prop
  | semicolon {t : Token} {after : List Token} :
      t.kind = .semicolon → StatementEnd (t :: after) after
  | bare {after : List Token} :
      ¬ (TokenStream.cur after).kind.ContinuesExpression → StatementEnd after after

/-- Further parameters, after a comma each, and the closing parenthesis. -/
inductive MoreParameters : List Token → List Node → List Token → Prop
  | close {t : Token} {after : List Token} : t.kind = .rparen → MoreParameters (t :: after) [] after
  | comma {t name : Token} {input after : List Token} {more : List Node} :
      t.kind = .comma → name.kind = .ident → MoreParameters input more after →
      MoreParameters (t :: name :: input) (.identifier name name.literal :: more) after

/-- The parameters of a function, after the opening parenthesis and with the closing one. -/
inductive Parameters : List Token → List Node → List Token → Prop
  | none {t : Token} {after : List Token} : t.kind = .rparen → Parameters (t :: after) [] after
  | some {name : Token} {input after : List Token} {more : List Node} :
      name.kind = .ident → MoreParameters input more after →
      Parameters (name :: input) (.identifier name name.literal :: more) after

mutual

/-- Statements one after the other. -/
inductive Statements : List Token → List Node → List Token → Prop
  | nil {after : List Token} : Statements after [] after
  | cons {input mid after : List Token} {node : Node} {more : List Node} :
      Statement input node mid → Statements mid more after → Statements input (node :: more) after

/-- A statement. -/
inductive Statement : List Token → Node → List Token → Prop
  | letStatement {t name assign : Token} {input mid after : List Token} {value : Node} :
      t.kind = .kwLet → name.kind = .ident → assign.kind = .assign →
      Expression .equals input value mid → StatementEnd mid after →
      Statement (t :: name :: assign :: input)
        (.letStatement t (.identifier name name.literal) value) after
  | returnStatement {t : Token} {input mid after : List Token} {value : Node} :
      t.kind = .kwReturn → Expression .equals input value mid → StatementEnd mid after →
      Statement (t :: input) (.returnStatement t value) after
  | expressionStatement {t : Token} {input mid after : List Token} {value : Node} :
      Expression .equals (t :: input) value mid → StatementEnd mid after →
      Statement (t :: input) (.expressionStatement t value) after

/-- A block in braces, the closing one of which may be missing at the end of input. -/
inductive Block : List Token → Node → List Token → Prop
  | closed {t close : Token} {input after : List Token} {statements : List Node} :
      t.kind = .lbrace → Statements input statements (close :: after) → close.kind = .rbrace →
      Block (t :: input) (.block t statements) after
  | unclosed {t : Token} {input : List Token} {statements : List Node} :
      t.kind = .lbrace → Statements input statements [] → Block (t :: input) (.block t statements) []

/-- An expression of a level. -/
inductive Expression : Precedence → List Token → Node → List Token → Prop
  | infixOp {level : Precedence} {op : Token} {input mid after : List Token} {left right : Node} :
      op.kind ∈ level.operators → Expression level input left (op :: mid) →
      Expression level.tighter mid right after →
      Expression level input (.infixOp op left op.literal right) after
  | tighter {level : Precedence} {input after : List Token} {node : Node} :
      level ≠ .call → Expression level.tighter input node after → Expression level input node after
  | prefixOp {op : Token} {input after : List Token} {right : Node} :
      op.kind = .bang ∨ op.kind = .minus → Expression .prefixOp input right after →
      Expression .prefixOp (op :: input) (.prefixOp op op.literal right) after
  | call {t : Token} {input mid after : List Token} {callee : Node} {arguments : List Node} :
      Expression .call input callee (t :: mid) → t.kind = .lparen → Arguments mid arguments after →
      Expression .call input (.call t callee arguments) after
  | identifier {t : Token} {after : List Token} :
      t.kind = .ident → Expression .call (t :: after) (.identifier t t.literal) after
  | integer {t : Token} {after : List Token} {value : Nat} :
      t.kind = .int → Text.Decimal.read t.literal = .ok value → value ≤ 2 ^ 63 - 1 →
      Expression .call (t :: after) (.integer t value) after
  | yes {t : Token} {after : List Token} :
      t.kind = .kwTrue → Expression .call (t :: after) (.boolean t true) after
  | no {t : Token} {after : List Token} :
      t.kind = .kwFalse → Expression .call (t :: after) (.boolean t false) after
  | group {t close : Token} {input after : List Token} {inner : Node} :
      t.kind = .lparen → Expression .equals input inner (close :: after) → close.kind = .rparen →
      Expression .call (t :: input) inner after
  | conditional {t opening close : Token} {input mid after : List Token}
      {condition consequence : Node} {alternative : Option Node} :
      t.kind = .kwIf → opening.kind = .lparen → Expression .equals input condition (close :: mid) →
      close.kind = .rparen → Branches mid consequence alternative after →
      Expression .call (t :: opening :: input) (.conditional t condition consequence alternative)
        after
  | function {t opening : Token} {input mid after : List Token} {parameters : List Node}
      {body : Node} :
      t.kind = .kwFunction → opening.kind = .lparen → Parameters input parameters mid →
      Block mid body after → Expression .call (t :: opening :: input) (.function t parameters body)
        after

/-- The blocks of a conditional. -/
inductive Branches : List Token → Node → Option Node → List Token → Prop
  | one {input after : List Token} {consequence : Node} :
      Block input consequence after → Branches input consequence none after
  | two {t : Token} {input mid after : List Token} {consequence alternative : Node} :
      Block input consequence (t :: mid) → t.kind = .kwElse → Block mid alternative after →
      Branches input consequence (some alternative) after

/-- The arguments of a call, after the opening parenthesis and with the closing one. -/
inductive Arguments : List Token → List Node → List Token → Prop
  | none {t : Token} {after : List Token} : t.kind = .rparen → Arguments (t :: after) [] after
  | some {input mid after : List Token} {first : Node} {more : List Node} :
      Expression .equals input first mid → MoreArguments mid more after →
      Arguments input (first :: more) after

/-- Further arguments, after a comma each, and the closing parenthesis. -/
inductive MoreArguments : List Token → List Node → List Token → Prop
  | close {t : Token} {after : List Token} : t.kind = .rparen → MoreArguments (t :: after) [] after
  | comma {t : Token} {input mid after : List Token} {argument : Node} {more : List Node} :
      t.kind = .comma → Expression .equals input argument mid → MoreArguments mid more after →
      MoreArguments (t :: input) (argument :: more) after

end

/-- A whole program: all tokens form statements. -/
inductive Program : List Token → Node → Prop
  | intro {input : List Token} {statements : List Node} :
      Statements input statements [] → Program input (.program .endOfInput statements)

/-- An expression of a level is one of every looser level. -/
theorem Expression.loosen {tight : Precedence} {input after : List Token} {node : Node}
    (h : Expression tight input node after) (loose : Precedence)
    (hle : loose.level ≤ tight.level) : Expression loose input node after := by
  by_cases heq : loose.level = tight.level
  · exact Precedence.eq_of_level_eq heq ▸ h
  · have hne : loose ≠ .call := by
      rintro rfl
      exact heq (Nat.le_antisymm hle (Precedence.level_le_call tight))
    have hstep := Precedence.level_tighter hne
    exact .tighter hne (h.loosen loose.tighter (by omega))
termination_by tight.level - loose.level

/-- The tokens that an expression starts with. -/
def expressionStarters : List TokenKind :=
  [.ident, .int, .bang, .minus, .kwTrue, .kwFalse, .lparen, .kwIf, .kwFunction]

/-- An expression starts with one of them. -/
theorem Expression.starts {level : Precedence} {input after : List Token} {node : Node} :
    Expression level input node after → (TokenStream.cur input).kind ∈ expressionStarters
  | .infixOp _ hleft _ => hleft.starts
  | .tighter _ h => h.starts
  | .call hcallee _ _ => hcallee.starts
  | .prefixOp hop _ => by rcases hop with hop | hop <;> simp [hop, expressionStarters]
  | .identifier h | .integer h _ _ | .yes h | .no h | .group h _ _ | .conditional h _ _ _ _
  | .function h _ _ _ => by simp [h, expressionStarters]

/-- A statement starts with a token that starts an expression, or with its own keyword. -/
theorem Statement.starts {input after : List Token} {node : Node}
    (h : Statement input node after) :
    (TokenStream.cur input).kind ∈ .kwLet :: .kwReturn :: expressionStarters := by
  cases h with
  | letStatement h | returnStatement h => simp [h]
  | expressionStatement h => exact List.mem_cons_of_mem _ (List.mem_cons_of_mem _ h.starts)

/-- A block starts with a brace. -/
theorem Block.starts {input after : List Token} {node : Node} (h : Block input node after) :
    (TokenStream.cur input).kind = .lbrace := by
  cases h with
  | closed h | unclosed h => exact h

/-- The blocks of a conditional start with a brace. -/
theorem Branches.starts {input after : List Token} {consequence : Node} {alternative : Option Node}
    (h : Branches input consequence alternative after) :
    (TokenStream.cur input).kind = .lbrace := by
  cases h with
  | one h | two h => exact h.starts

/-- An argument is followed by a comma or the closing parenthesis. -/
theorem MoreArguments.starts {input after : List Token} {more : List Node}
    (h : MoreArguments input more after) :
    (TokenStream.cur input).kind = .rparen ∨ (TokenStream.cur input).kind = .comma := by
  cases h with
  | close h => exact .inl h
  | comma h => exact .inr h

end Derivation

end Monkey
