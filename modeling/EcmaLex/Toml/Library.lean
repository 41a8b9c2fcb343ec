import EcmaLex.Text.Decimal
import EcmaLex.Toml.Document

/-!
# Libraries for TOML

What programs need of a library for TOML to keep a few numbers: that it writes numbers under names as a
document, and reads the table of a document. `library` is one that writes bare names and reads whole
documents.
-/

namespace EcmaLex.Toml

structure Library where
  /-- The document of the numbers under their names, if it can be written. -/
  write : List (Text × Nat) → Option Text
  /-- The table of a document, if it is well formed. -/
  read : Text → Option Entries

/-- One line of a document: a bare name and a number. -/
def line (name : Text) (n : Nat) : Text :=
  name ++ [' ', '=', ' '] ++ Text.decimal n ++ ['\n']

/-- The text of lines. -/
def linesText (lines : List (Text × Nat)) : Text :=
  lines.flatMap fun entry => line entry.1 entry.2

/-- Writes numbers line by line. A number that is too large for a document is not written. -/
def library : Library where
  write lines := if ∀ entry ∈ lines, entry.2 < integerBound then some (linesText lines) else none
  read := document?

end EcmaLex.Toml
