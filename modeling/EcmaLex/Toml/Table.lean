import EcmaLex.Toml.Value

/-!
# Tables of TOML documents

The sections of a document are put together into one tree of tables. No key is given twice: an
assignment makes a new entry, a heading fills a table that no heading has filled before, and a key
with several names only gives its value to a table that such keys have made.
-/

namespace EcmaLex.Toml

/-- What made a table. -/
inductive Origin where
  /-- Its own heading. -/
  | heading
  /-- The heading of a table inside it. -/
  | implied
  /-- A key of several names. -/
  | key
  deriving DecidableEq, Repr

/-- What stands under a name. -/
inductive Node where
  | leaf (value : Value)
  | table (origin : Origin) (entries : List (Text × Node))
  /-- An array of tables, of which only the last can still grow. -/
  | tables (last : List (Text × Node))

/-- The names of a table and what stands under them. -/
abbrev Entries := List (Text × Node)

namespace Entries

/-- What stands under a name. -/
def get? (entries : Entries) (name : Text) : Option Node :=
  entries.lookup name

/-- Puts something under a name, in place of what was there. -/
def put (entries : Entries) (name : Text) (node : Node) : Entries :=
  (name, node) :: entries.filter fun entry => entry.1 != name

/-- Gives a value to a key. On its way a key may pass tables that are only implied by headings and
arrays of tables, but not tables with a heading; the table that takes the value was made by a key. -/
def assign (value : Value) : List Text → Entries → Option Entries
  | [], _ => none
  | [name], entries =>
    match entries.get? name with
    | none => some (entries.put name (.leaf value))
    | some _ => none
  | name :: path, entries =>
    match entries.get? name with
    | none => (assign value path []).map fun inner => entries.put name (.table .key inner)
    | some (.table .key inner) =>
      (assign value path inner).map fun inner => entries.put name (.table .key inner)
    | some (.table .implied inner) =>
      if path.length < 2 then none
      else (assign value path inner).map fun inner => entries.put name (.table .implied inner)
    | some (.tables last) =>
      if path.length < 2 then none
      else (assign value path last).map fun last => entries.put name (.tables last)
    | some (.table .heading _) => none
    | some (.leaf _) => none

/-- Gives values to keys, one after the other. -/
def assignAll (assignments : List Assignment) (entries : Entries) : Option Entries :=
  assignments.foldlM (fun entries assignment => assign assignment.value assignment.key entries)
    entries

/-- Fills the table at a path. -/
def fillTable (fill : Entries → Option Entries) : List Text → Entries → Option Entries
  | [], _ => none
  | [name], entries =>
    match entries.get? name with
    | none => (fill []).map fun inner => entries.put name (.table .heading inner)
    | some (.table .implied inner) =>
      (fill inner).map fun inner => entries.put name (.table .heading inner)
    | some _ => none
  | name :: path, entries =>
    match entries.get? name with
    | none => (fillTable fill path []).map fun inner => entries.put name (.table .implied inner)
    | some (.table origin inner) =>
      (fillTable fill path inner).map fun inner => entries.put name (.table origin inner)
    | some (.tables last) => (fillTable fill path last).map fun last => entries.put name (.tables last)
    | some (.leaf _) => none

/-- Adds a table to the array of tables at a path. -/
def addTable (fill : Entries → Option Entries) : List Text → Entries → Option Entries
  | [], _ => none
  | [name], entries =>
    match entries.get? name with
    | none | some (.tables _) => (fill []).map fun last => entries.put name (.tables last)
    | some _ => none
  | name :: path, entries =>
    match entries.get? name with
    | none => (addTable fill path []).map fun inner => entries.put name (.table .implied inner)
    | some (.table origin inner) =>
      (addTable fill path inner).map fun inner => entries.put name (.table origin inner)
    | some (.tables last) => (addTable fill path last).map fun last => entries.put name (.tables last)
    | some (.leaf _) => none

/-- Adds a section. -/
def addSection (entries : Entries) (part : Section) : Option Entries :=
  match part.heading with
  | .root => assignAll part.assignments entries
  | .table path => fillTable (assignAll part.assignments) path entries
  | .element path => addTable (assignAll part.assignments) path entries

/-- The table of a whole document. -/
def ofSections (sections : List Section) : Option Entries :=
  sections.foldlM addSection []

end Entries

end EcmaLex.Toml
