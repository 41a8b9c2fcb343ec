/-!
# Character classes of source text

Names, numerals and blanks are made of ASCII characters only. No other character belongs to any of
these classes.
-/

namespace EcmaLex

/-- A letter, `_` or `$`: what a name can begin with. -/
def isNameStart (c : Char) : Bool :=
  c.isAlpha || c == '_' || c == '$'

/-- A letter, a decimal digit, `_` or `$`: what a name can go on with. -/
def isNamePart (c : Char) : Bool :=
  c.isAlphanum || c == '_' || c == '$'

/-- Space, tab, vertical tab and form feed. -/
def isBlank (c : Char) : Bool :=
  c == ' ' || c == '\t' || c == '\x0b' || c == '\x0c'

/-- What a digit or a letter of either case is worth: `0` to `9`, then `a` for ten up to `z` for
thirty-five. -/
def digitValue? (c : Char) : Option Nat :=
  if c.isDigit then some (c.toNat - '0'.toNat)
  else if c.isLower then some (c.toNat - 'a'.toNat + 10)
  else if c.isUpper then some (c.toNat - 'A'.toNat + 10)
  else none

/-- Whether `c` is a digit in the given base. -/
def isDigitIn (base : Nat) (c : Char) : Bool :=
  match digitValue? c with
  | some value => value < base
  | none => false

/-- The bases a numeral can announce after its leading zero. -/
inductive Radix where
  | binary
  | octal
  | hexadecimal
  deriving DecidableEq, Repr

namespace Radix

def base : Radix → Nat
  | binary => 2
  | octal => 8
  | hexadecimal => 16

def name : Radix → String
  | binary => "binary"
  | octal => "octal"
  | hexadecimal => "hexadecimal"

/-- Whether `c` announces this base, in either case. -/
def announcedBy : Radix → Char → Bool
  | binary, c => c == 'b' || c == 'B'
  | octal, c => c == 'o' || c == 'O'
  | hexadecimal, c => c == 'x' || c == 'X'

end Radix

/-- What begins a name can also continue one. -/
theorem isNamePart_of_isNameStart {c : Char} (h : isNameStart c = true) : isNamePart c = true := by
  simp only [isNameStart, isNamePart, Char.isAlphanum, Bool.or_eq_true] at *
  rcases h with (h | h) | h <;> simp [h]

end EcmaLex
