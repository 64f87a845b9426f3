/-!
# Tokens

A token is a kind and the text it was read from. Words are keywords or identifiers; single
characters have their kind in one table. The end of input is a token with no text.
-/

namespace Monkey

/-- What a token is. -/
inductive TokenKind where
  | illegal
  | eof
  | ident
  | int
  | assign
  | plus
  | minus
  | bang
  | asterisk
  | slash
  | lt
  | gt
  | eq
  | notEq
  | comma
  | semicolon
  | lparen
  | rparen
  | lbrace
  | rbrace
  | kwFunction
  | kwLet
  | kwTrue
  | kwFalse
  | kwIf
  | kwElse
  | kwReturn
deriving DecidableEq, Repr

namespace TokenKind

/-- All kinds, in the order in which they are listed. -/
def all : List TokenKind :=
  [illegal, eof, ident, int, assign, plus, minus, bang, asterisk, slash, lt, gt, eq, notEq, comma,
   semicolon, lparen, rparen, lbrace, rbrace, kwFunction, kwLet, kwTrue, kwFalse, kwIf, kwElse,
   kwReturn]

/-- The name of a kind in messages and dumps. -/
def name : TokenKind → String
  | illegal => "ILLEGAL"
  | eof => "EOF"
  | ident => "IDENT"
  | int => "INT"
  | assign => "ASSIGN"
  | plus => "PLUS"
  | minus => "MINUS"
  | bang => "BANG"
  | asterisk => "ASTERISK"
  | slash => "SLASH"
  | lt => "LT"
  | gt => "GT"
  | eq => "EQ"
  | notEq => "NOT_EQ"
  | comma => "COMMA"
  | semicolon => "SEMICOLON"
  | lparen => "LPAREN"
  | rparen => "RPAREN"
  | lbrace => "LBRACE"
  | rbrace => "RBRACE"
  | kwFunction => "FUNCTION"
  | kwLet => "LET"
  | kwTrue => "TRUE"
  | kwFalse => "FALSE"
  | kwIf => "IF"
  | kwElse => "ELSE"
  | kwReturn => "RETURN"

/-- Every kind is listed. -/
theorem mem_all (kind : TokenKind) : kind ∈ all := by
  cases kind <;> decide

end TokenKind

/-- A kind and the text it was read from. -/
structure Token where
  kind : TokenKind
  literal : String
deriving DecidableEq, Repr

/-- The words that are not identifiers. -/
def keywords : List (String × TokenKind) :=
  [("fn", .kwFunction), ("let", .kwLet), ("true", .kwTrue), ("false", .kwFalse), ("if", .kwIf),
   ("else", .kwElse), ("return", .kwReturn)]

/-- The characters that are tokens by themselves whatever follows them. -/
def punctuation : List (Char × TokenKind) :=
  [('+', .plus), ('-', .minus), ('*', .asterisk), ('/', .slash), ('<', .lt), ('>', .gt),
   (',', .comma), (';', .semicolon), ('(', .lparen), (')', .rparen), ('{', .lbrace),
   ('}', .rbrace)]

namespace TokenKind

/-- The kind of a word. -/
def ofWord (word : String) : TokenKind := (keywords.lookup word).getD .ident

/-- The kind of a character that is a token by itself; illegal where there is no such token. -/
def ofPunctuation (c : Char) : TokenKind := (punctuation.lookup c).getD .illegal

end TokenKind

namespace Token

/-- The end of the input. -/
def endOfInput : Token := ⟨.eof, ""⟩

@[simp]
theorem kind_endOfInput : endOfInput.kind = .eof := rfl

end Token

end Monkey
