import Monkey.Token

/-!
# Precedence

How tightly a token binds the expression before it. Most tokens do not continue an expression
and have the lowest precedence; the operators come in four levels, a prefix operator binds
tighter than any of them, and a call tightest.
-/

namespace Monkey

/-- How tightly an expression is bound, from loosest to tightest. -/
inductive Precedence where
  | lowest
  | equals
  | lessGreater
  | sum
  | product
  | prefixOp
  | call
deriving DecidableEq, Repr

namespace Precedence

/-- All precedences, the loosest first. -/
def all : List Precedence := [lowest, equals, lessGreater, sum, product, prefixOp, call]

/-- The name of a precedence. -/
def name : Precedence → String
  | lowest => "LOWEST"
  | equals => "EQUALS"
  | lessGreater => "LESS_GREATER"
  | sum => "SUM"
  | product => "PRODUCT"
  | prefixOp => "PREFIX"
  | call => "CALL"

/-- The rank of a precedence. -/
def level : Precedence → Nat
  | lowest => 1
  | equals => 2
  | lessGreater => 3
  | sum => 4
  | product => 5
  | prefixOp => 6
  | call => 7

instance : LT Precedence := ⟨fun p q => p.level < q.level⟩

instance (p q : Precedence) : Decidable (p < q) := inferInstanceAs (Decidable (p.level < q.level))

/-- The tokens that can continue an expression. -/
def table : List (TokenKind × Precedence) :=
  [(.eq, equals), (.notEq, equals), (.lt, lessGreater), (.gt, lessGreater), (.plus, sum),
   (.minus, sum), (.slash, product), (.asterisk, product), (.lparen, call)]

/-- How tightly a token binds the expression before it. -/
def ofKind (kind : TokenKind) : Precedence := (table.lookup kind).getD lowest

/-- Every precedence is listed. -/
theorem mem_all (p : Precedence) : p ∈ all := by
  cases p <;> decide

/-- Nothing is looser than the lowest precedence. -/
theorem not_lt_lowest (p : Precedence) : ¬ p < lowest := by
  cases p <;> decide

/-- The end of input continues no expression. -/
theorem ofKind_eof : ofKind .eof = lowest := rfl

/-- A token that binds tighter than something is not the end of input. -/
theorem ne_eof_of_lt {p : Precedence} {kind : TokenKind} (h : p < ofKind kind) : kind ≠ .eof := by
  rintro rfl
  exact not_lt_lowest p h

end Precedence

end Monkey
