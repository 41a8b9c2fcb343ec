/-!
# Kinds of token

The set of kinds is closed, and consumers match on their names. Two properties of a kind steer the
scanner: trivia leave no trace in what may follow them, and after a kind that ends an expression a
slash divides.
-/

namespace EcmaLex

inductive TokenKind where
  /-- One blank character. -/
  | whitespace
  /-- LF, CR or CR LF. -/
  | lineEnd
  /-- A numeral, a quoted string, a regular expression, or one of `true`, `false`, `null`, `this`. -/
  | literal
  /-- A template without interpolation. -/
  | template
  /-- A template from its opening backquote to its first interpolation. -/
  | templateStart
  /-- A template from the end of one interpolation to the next. -/
  | templateMiddle
  /-- A template from the end of its last interpolation to its closing backquote. -/
  | templateEnd
  /-- A reserved word. -/
  | keyword
  /-- A name that is not reserved. -/
  | identifier
  /-- A comment of any form. -/
  | comment
  /-- An operator, `?` and `:` included. -/
  | operator
  | period
  | comma
  | semicolon
  | leftParen
  | rightParen
  | leftBracket
  | rightBracket
  | leftBrace
  | rightBrace
  deriving DecidableEq, Repr

namespace TokenKind

/-- Every kind, in the order in which they are listed to consumers. -/
def all : List TokenKind :=
  [whitespace, lineEnd, literal, template, templateStart, templateMiddle, templateEnd, keyword,
    identifier, comment, operator, period, comma, semicolon, leftParen, rightParen, leftBracket,
    rightBracket, leftBrace, rightBrace]

/-- The name consumers match on. -/
def name : TokenKind → String
  | whitespace => "whitespace"
  | lineEnd => "line-end"
  | literal => "literal"
  | template => "template"
  | templateStart => "template-start"
  | templateMiddle => "template-middle"
  | templateEnd => "template-end"
  | keyword => "keyword"
  | identifier => "identifier"
  | comment => "comment"
  | operator => "operator"
  | period => "period"
  | comma => "comma"
  | semicolon => "semicolon"
  | leftParen => "left-paren"
  | rightParen => "right-paren"
  | leftBracket => "left-bracket"
  | rightBracket => "right-bracket"
  | leftBrace => "left-brace"
  | rightBrace => "right-brace"

/-- The kind of the given name. -/
def ofName? (name : String) : Option TokenKind :=
  all.find? fun kind => kind.name == name

/-- Whitespace, line ends and comments. -/
def isTrivia : TokenKind → Bool
  | whitespace | lineEnd | comment => true
  | _ => false

/-- Whether a token of this kind can end an expression. -/
def endsExpression : TokenKind → Bool
  | literal | template | templateEnd | identifier | rightParen | rightBracket | rightBrace => true
  | _ => false

end TokenKind

end EcmaLex
