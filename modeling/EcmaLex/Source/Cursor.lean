import EcmaLex.Source.Location
import EcmaLex.Text.Lines

/-!
# Cursors

A cursor stands between two characters of a source text and knows the byte offset and the location
there. It only moves forward, over a whole piece of text at a time, and counts the line terminators
of each piece on its own: a CR LF cut in two counts twice.
-/

namespace EcmaLex

/-- The location reached from `location` by reading `text`. -/
def Location.after (location : Location) (text : Text) : Location :=
  let breaks := text.lineBreaks
  match breaks.tail with
  | some tail => { line := location.line + breaks.count, column := tail.charCount + 1 }
  | none => { location with column := location.column + text.charCount }

/-- A place in a source text, with the text still ahead. -/
structure Cursor where
  source : Text
  rest : Text
  position : Nat
  location : Location
  deriving DecidableEq, Repr

namespace Cursor

/-- The cursor at the start of a text. -/
def ofText (source : Text) : Cursor :=
  { source, rest := source, position := 0, location := .start }

def atEnd (cursor : Cursor) : Bool :=
  cursor.rest.isEmpty

/-- The span of `size` bytes from here on, cut short at the end of the source. -/
def spanAhead (cursor : Cursor) (size : Nat) : Span :=
  { start := cursor.position
    stop := min (cursor.position + size) cursor.source.byteSize
    location := cursor.location }

/-- The span of a piece of text that starts here. -/
def spanOf (cursor : Cursor) (piece : Text) : Span :=
  { start := cursor.position
    stop := cursor.position + piece.byteSize
    location := cursor.location }

/-- Moves over `piece`, after which `rest` is still ahead. -/
def advance (cursor : Cursor) (piece rest : Text) : Cursor :=
  { cursor with
    rest
    position := cursor.position + piece.byteSize
    location := cursor.location.after piece }

/-- Moves over the next `size` bytes and returns them with their span. There is no such move past
the end of the source or into a character. -/
def consume? (cursor : Cursor) (size : Nat) : Option (Text × Span × Cursor) :=
  (cursor.rest.splitAtByte? size).map fun (piece, rest) =>
    (piece, cursor.spanOf piece, cursor.advance piece rest)

/-- A move succeeds exactly where a piece of that many bytes is ahead, and is over that piece. -/
theorem consume?_eq_some_iff {cursor after : Cursor} {size : Nat} {piece : Text} {span : Span} :
    cursor.consume? size = some (piece, span, after) ↔
      ∃ rest, size = piece.byteSize ∧ piece ++ rest = cursor.rest ∧
        span = cursor.spanOf piece ∧ after = cursor.advance piece rest := by
  simp only [consume?, Option.map_eq_some_iff, Prod.exists, Prod.mk.injEq,
    Text.splitAtByte?_eq_some_iff]
  constructor
  · rintro ⟨left, rest, ⟨hsize, happend⟩, rfl, rfl, rfl⟩
    exact ⟨rest, hsize, happend, rfl, rfl⟩
  · rintro ⟨rest, hsize, happend, rfl, rfl⟩
    exact ⟨piece, rest, ⟨hsize, happend⟩, rfl, rfl, rfl⟩

end Cursor

end EcmaLex
