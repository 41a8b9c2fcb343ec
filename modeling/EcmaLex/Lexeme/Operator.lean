import EcmaLex.Lexeme.Basic

/-!
# Operators

The operators of each edition, every one after those that are longer and begin with it. The first
that stands at the start of a text is therefore the longest.
-/

namespace EcmaLex.Operator

open Matcher

/-- The arrow of functions and the spread of lists. -/
def arrowAndSpread : List Text :=
  ["=>", "..."].map String.toList

/-- Raising to a power. -/
def exponent : List Text :=
  ["**=", "**"].map String.toList

/-- The operators of every edition. -/
def base : List Text :=
  ["&&", "||", "++", "--",
    "!==", "!=", "===", "==", "<<=", "<<", ">>>=", ">>>", ">>=", ">>",
    "+=", "+", "-=", "-", "*=", "*", "/=", "/", "%=", "%", "&=", "&", "|=", "|", "^=", "^",
    "<=", "<", "=", ">=", ">",
    "!", "?", ":", "~"].map String.toList

end EcmaLex.Operator
