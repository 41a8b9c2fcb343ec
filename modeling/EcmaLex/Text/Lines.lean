import EcmaLex.Text.Basic

/-!
# Lines

Two notions of the end of a line are in use. Line terminators, which are LF, CR and the pair CR LF,
advance the line count. Line breaks are LF, CR, U+2028 and U+2029: a match that runs to the end of
its line stops before any of these.
-/

namespace EcmaLex

/-- LF or CR. -/
def isLineTerminator (c : Char) : Bool :=
  c == '\n' || c == '\r'

/-- LF, CR, U+2028 or U+2029. -/
def isLineBreak (c : Char) : Bool :=
  isLineTerminator c || c == '\u2028' || c == '\u2029'

namespace Text

/-- The text up to its first line break, and the text from there on. -/
def splitLine (text : Text) : Text × Text :=
  text.run fun c => !isLineBreak c

/-- The text up to its first line break. -/
def restOfLine (text : Text) : Text :=
  text.splitLine.1

/-- The text up to its first line terminator. -/
def firstLine (text : Text) : Text :=
  text.takeWhile fun c => !isLineTerminator c

/-- The line terminators of a text: how many there are, and the text after the last one. -/
structure LineBreaks where
  count : UInt32
  tail : Option Text
  deriving DecidableEq, Repr

/-- Adds a terminator directly before `rest`, whose own terminators are given. -/
def LineBreaks.before (rest : Text) (breaks : LineBreaks) : LineBreaks :=
  { count := breaks.count + 1, tail := some (breaks.tail.getD rest) }

/-- The line terminators of a text, the pair CR LF counted once. -/
def lineBreaks : Text → LineBreaks
  | [] => { count := 0, tail := none }
  | '\r' :: '\n' :: rest => (lineBreaks rest).before rest
  | c :: rest => if isLineTerminator c then (lineBreaks rest).before rest else lineBreaks rest

/-- The number of characters of a text, held at the greatest word for longer texts. -/
def charCount (text : Text) : UInt32 :=
  UInt32.ofNat (min text.length (UInt32.size - 1))

end Text

end EcmaLex
