import EcmaLex.Source.Location
import EcmaLex.Text.Quoted
import EcmaLex.Token.Kind

/-!
# Tokens

A token is a piece of the source with its kind and its place. Nothing in it is decoded: the texts of
all tokens of a source, put together, are the source.
-/

namespace EcmaLex

structure Token where
  kind : TokenKind
  text : Text
  span : Span
  deriving DecidableEq, Repr

namespace Token

def isTrivia (token : Token) : Bool :=
  token.kind.isTrivia

/-- One line for people to read: kind, quoted text and location. -/
def describe (token : Token) : String :=
  token.kind.name ++ " " ++ String.ofList token.text.quoted ++ " " ++ token.span.location.describe

end Token

end EcmaLex
