import Monkey.Token

/-!
# Parse rules

Which rule reads an expression that starts with a token, and which rule continues an
expression when a token follows it. The standard rules cover the whole language; rules can be
removed, and what a removed rule would have read is then an error.
-/

namespace Monkey

/-- How an expression that starts with a token is read. -/
inductive PrefixRule where
  | identifier
  | integer
  | boolean
  | operator
  | group
  | conditional
  | function
deriving DecidableEq, Repr

/-- How an expression is continued by a token. -/
inductive InfixRule where
  | operator
  | call
deriving DecidableEq, Repr

/-- The rules in force. -/
structure Rules where
  prefixRule? : TokenKind → Option PrefixRule
  infixRule? : TokenKind → Option InfixRule

namespace Rules

/-- The rules of the language. -/
def standard : Rules where
  prefixRule? kind :=
    match kind with
    | .ident => some .identifier
    | .int => some .integer
    | .bang | .minus => some .operator
    | .kwTrue | .kwFalse => some .boolean
    | .lparen => some .group
    | .kwIf => some .conditional
    | .kwFunction => some .function
    | _ => none
  infixRule? kind :=
    match kind with
    | .plus | .minus | .slash | .asterisk | .eq | .notEq | .lt | .gt => some .operator
    | .lparen => some .call
    | _ => none

/-- The rules without the one for expressions that start with a token of the given kind. -/
def withoutPrefix (rules : Rules) (kind : TokenKind) : Rules :=
  { rules with prefixRule? := fun k => if k = kind then none else rules.prefixRule? k }

/-- The rules without the one that continues an expression by a token of the given kind. -/
def withoutInfix (rules : Rules) (kind : TokenKind) : Rules :=
  { rules with infixRule? := fun k => if k = kind then none else rules.infixRule? k }

/-- A removed rule is no longer there, and the others are unchanged. -/
theorem prefixRule?_withoutPrefix (rules : Rules) (kind k : TokenKind) :
    (rules.withoutPrefix kind).prefixRule? k = if k = kind then none else rules.prefixRule? k := rfl

/-- A removed rule is no longer there, and the others are unchanged. -/
theorem infixRule?_withoutInfix (rules : Rules) (kind k : TokenKind) :
    (rules.withoutInfix kind).infixRule? k = if k = kind then none else rules.infixRule? k := rfl

end Rules

end Monkey
