import EcmaLex.Text.Basic

/-!
# Contents of TOML documents

A document is a list of sections, the first without a heading, and a section is a list of
assignments to keys. Keys are paths of names. Of values other than integers only the type is kept.
-/

namespace EcmaLex.Toml

/-- Integers are at least minus this and less than this, so that they fit in a word with sign. -/
def integerBound : Nat := UInt64.size / 2

inductive Value where
  | integer (n : Int)
  | float
  | boolean
  | string
  | dateTime
  | array
  | table
  deriving DecidableEq, Repr

/-- A key and the value given to it. -/
structure Assignment where
  key : List Text
  value : Value
  deriving DecidableEq, Repr

/-- What stands above the assignments of a section. -/
inductive Heading where
  /-- Nothing: the start of the document. -/
  | root
  /-- The path of a table. -/
  | table (path : List Text)
  /-- The path of an array of tables, to which the section adds one. -/
  | element (path : List Text)
  deriving DecidableEq, Repr

structure Section where
  heading : Heading
  assignments : List Assignment
  deriving DecidableEq, Repr

end EcmaLex.Toml
