import EcmaLex.Source.Location
import EcmaLex.Text.Ascii
import EcmaLex.Text.Basic

/-!
# Faults

A scan stops at the first fault. A fault says what is wrong and where, its span starting exactly
where the scan stood.
-/

namespace EcmaLex

/-- What is wrong with a numeral. -/
inductive NumeralFault where
  /-- A name begins directly after it. -/
  | identifierAfter
  /-- A digit of no use in its base follows. -/
  | digitAfter
  /-- Nothing follows the letter that announces its base. -/
  | missingDigits (radix : Radix)
  /-- The exponent has no digits. -/
  | missingExponent
  deriving DecidableEq, Repr

/-- A construct that is opened and never closed. -/
inductive Unfinished where
  | string
  | template
  | templateSection
  | comment
  | regExp
  deriving DecidableEq, Repr

inductive Fault where
  | malformedNumeral (problem : NumeralFault) (text : Text) (span : Span)
  | unfinished (construct : Unfinished) (span : Span)
  /-- A right brace that neither closes a brace nor resumes a template. -/
  | unmatchedBrace (span : Span)
  /-- No rule applies to the first character of `line`. -/
  | unrecognized (line : Text) (span : Span)
  /-- The scan was not allowed another step. -/
  | iterationLimit (limit : UInt64) (span : Span)
  deriving DecidableEq, Repr

namespace NumeralFault

/-- What is said of a malformed numeral with the given text. -/
def message (text : Text) : NumeralFault → String
  | identifierAfter => "Identifier starts immediately after numeric literal"
  | digitAfter => "Numeric literal starts immediately after numeric literal"
  | missingDigits radix => "Missing " ++ radix.name ++ " digits after " ++ String.ofList text
  | missingExponent => "Missing exponent in scientific literal"

end NumeralFault

namespace Unfinished

def message : Unfinished → String
  | string => "Unfinished string"
  | template => "Unfinished template literal"
  | templateSection => "Unfinished template literal section"
  | comment => "Unfinished comment"
  | regExp => "Unfinished regular expression"

end Unfinished

namespace Fault

def span : Fault → Span
  | malformedNumeral _ _ span => span
  | unfinished _ span => span
  | unmatchedBrace span => span
  | unrecognized _ span => span
  | iterationLimit _ span => span

def location (fault : Fault) : Location :=
  fault.span.location

/-- What is wrong, without the place. -/
def complaint : Fault → String
  | malformedNumeral problem text _ => problem.message text
  | unfinished construct _ => construct.message
  | unmatchedBrace _ => "Unmatched right-brace"
  | unrecognized line _ => "Couldn't understand this code: " ++ String.ofList line
  | iterationLimit limit _ => "Scanner exceeded its iteration limit of " ++ toString limit

/-- What is wrong and where. -/
def message (fault : Fault) : String :=
  fault.complaint ++ " " ++ fault.location.describe

/-- Whether the source is at fault, and not the limit put on the scan. -/
def liesInSource : Fault → Bool
  | iterationLimit _ _ => false
  | _ => true

end Fault

end EcmaLex
