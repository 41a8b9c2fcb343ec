/-!
# Locations and spans

A location is a line and a column, both counted from one, columns in characters. A span is a range of
byte offsets together with the location of its first character.
-/

namespace EcmaLex

/-- A line and a column, both counted from one. -/
structure Location where
  line : UInt32
  column : UInt32
  deriving DecidableEq, Repr

namespace Location

/-- Where every text begins. -/
def start : Location := { line := 1, column := 1 }

/-- Locations are ordered by line, then by column. -/
protected def compare (a b : Location) : Ordering :=
  (compare a.line b.line).then (compare a.column b.column)

/-- The form in which messages name a location. -/
def describe (location : Location) : String :=
  s!"(line {location.line}, col {location.column})"

end Location

/-- A range of byte offsets, its end excluded, and the location of its first character. -/
structure Span where
  start : Nat
  stop : Nat
  location : Location
  deriving DecidableEq, Repr

namespace Span

/-- Length in bytes. -/
def size (span : Span) : Nat :=
  span.stop - span.start

def isEmpty (span : Span) : Bool :=
  span.start == span.stop

/-- Whether a byte offset lies in the span. -/
def contains (span : Span) (offset : Nat) : Bool :=
  span.start ≤ offset && offset < span.stop

/-- The name of the range in reports. -/
def label (span : Span) : String :=
  s!"input:{span.start}-{span.stop}"

end Span

end EcmaLex
