import EcmaLex.Nesting
import EcmaLex.Token.Kind

/-!
# What the tokens so far leave behind

Two characters mean different things in different places. A slash divides after a token that can end
an expression and opens a regular expression anywhere else. A right brace closes a brace or resumes
a template. The context holds what has to be known of the tokens already read to tell these apart,
and `observe` says how one more token changes it.
-/

namespace EcmaLex

structure Context where
  /-- Whether the last token that is not trivia can end an expression. -/
  expression : Bool
  nesting : Nesting
  /-- The kind of the last token that is not trivia. -/
  lastSignificant : Option TokenKind
  /-- Whether nothing but whitespace and comments has been read since the last line end. -/
  atLineStart : Bool
  deriving DecidableEq, Repr

namespace Context

/-- Nothing has been read. -/
def initial : Context :=
  { expression := false, nesting := .empty, lastSignificant := none, atLineStart := true }

/-- Whether the last token that is not trivia is a period. -/
def afterPeriod (context : Context) : Bool :=
  context.lastSignificant == some .period

/-- The nesting after a token of the given kind. -/
def nestingAfter (nesting : Nesting) : TokenKind → Nesting
  | .templateStart => nesting.enter
  | .templateEnd => nesting.leave
  | .leftBrace => nesting.openBrace
  | .rightBrace => nesting.closeBrace
  | _ => nesting

/-- The context after one more token. -/
def observe (context : Context) (kind : TokenKind) : Context :=
  match kind with
  | .whitespace | .comment => context
  | .lineEnd => { context with atLineStart := true }
  | kind =>
    { expression := kind.endsExpression
      nesting := nestingAfter context.nesting kind
      lastSignificant := some kind
      atLineStart := false }

end Context

end EcmaLex
