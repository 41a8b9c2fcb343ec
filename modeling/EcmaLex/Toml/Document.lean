import EcmaLex.Toml.Scalar
import EcmaLex.Toml.Table

/-!
# TOML documents

Reads a document line by line into its sections. Every assignment and every heading ends its line,
apart from a comment; arrays may go over several lines and inline tables may not.
-/

namespace EcmaLex.Toml

/-- Skips spaces, line ends and comments. A comment has been opened if `inComment` holds. -/
def skipFiller (inComment : Bool) : Text → Text
  | [] => []
  | '\r' :: '\n' :: rest => skipFiller false rest
  | c :: rest =>
    if c == '\n' then skipFiller false rest
    else if inComment then (if isPlain c then skipFiller true rest else c :: rest)
    else if c == '#' then skipFiller true rest
    else if isSpace c then skipFiller false rest
    else c :: rest

/-- The text after what is left of a line, which may only be spaces and a comment. -/
def endLine? (text : Text) : Option Text :=
  let ahead := match skipSpaces text with
    | '#' :: rest => rest.dropWhile isPlain
    | rest => rest
  match ahead with
  | [] => some []
  | '\n' :: rest => some rest
  | '\r' :: '\n' :: rest => some rest
  | _ => none

/-- A character of a name that needs no quotes. -/
def isBare (c : Char) : Bool :=
  c.isAlphanum || c == '_' || c == '-'

/-- One name of a key. -/
def name (text : Text) : Option (Text × Text) :=
  match text with
  | '"' :: rest => basicString rest
  | '\x27' :: rest => literalString rest
  | text => if (text.takeWhile isBare).isEmpty then none else some (text.run isBare)

/-- How deep values may be nested, and how many names a key may have. -/
def maxDepth : Nat := 79

/-- Names with points between them. -/
def names (text : Text) : Option (List Text × Text) :=
  match name text with
  | none => none
  | some (first, rest) =>
    match skipSpaces rest with
    | '.' :: tail =>
      let next := skipSpaces tail
      if next.length < text.length then
        (names next).map fun (path, rest) => (first :: path, rest)
      else none
    | _ => some ([first], rest)
termination_by text.length

/-- A key: names with points between them, not too many of them. -/
def key (text : Text) : Option (List Text × Text) :=
  match names text with
  | some (path, rest) => if path.length ≤ maxDepth then some (path, rest) else none
  | none => none

/-- What is left of an array after its opening bracket or a comma. -/
def arrayRest (value : Reader Value) (text : Text) : Option Text :=
  match skipFiller false text with
  | ']' :: rest => some rest
  | ahead =>
    match value ahead with
    | none => none
    | some (_, rest) =>
      match skipFiller false rest with
      | ']' :: rest => some rest
      | ',' :: rest => if rest.length < text.length then arrayRest value rest else none
      | _ => none
termination_by text.length

/-- A key, an equals sign and a value. -/
def assignment (value : Reader Value) (text : Text) : Option (Assignment × Text) := do
  let (path, rest) ← key text
  let (found, rest) ← value (skipSpaces (← expect '=' (skipSpaces rest)))
  return ({ key := path, value := found }, rest)

/-- What is left of an inline table where its next assignment begins. -/
def inlineRest (value : Reader Value) (text : Text) : Option (List Assignment × Text) :=
  match assignment value (skipSpaces text) with
  | none => none
  | some (first, rest) =>
    match skipSpaces rest with
    | '}' :: rest => some ([first], rest)
    | ',' :: rest =>
      if rest.length < text.length then
        (inlineRest value rest).map fun (others, rest) => (first :: others, rest)
      else none
    | _ => none
termination_by text.length

/-- The text after an inline table whose opening brace has been read. No key may be given twice in
it. -/
def inlineTable (value : Reader Value) (text : Text) : Option Text :=
  match skipSpaces text with
  | '}' :: rest => some rest
  | _ =>
    match inlineRest value text with
    | some (assignments, rest) => (Entries.assignAll assignments []).map fun _ => rest
    | none => none

/-- A value with at most `depth` arrays and inline tables around one another. -/
def value : Nat → Reader Value
  | 0, '[' :: _ => none
  | 0, '{' :: _ => none
  | depth + 1, '[' :: rest => (arrayRest (value depth) rest).map fun rest => (.array, rest)
  | depth + 1, '{' :: rest => (inlineTable (value depth) rest).map fun rest => (.table, rest)
  | _, text => scalar text

/-- A heading with its brackets. -/
def heading (text : Text) : Option (Heading × Text) :=
  match text with
  | '[' :: '[' :: rest => do
    let (path, rest) ← key (skipSpaces rest)
    let rest ← expect ']' (← expect ']' (skipSpaces rest))
    return (.element path, rest)
  | '[' :: rest => do
    let (path, rest) ← key (skipSpaces rest)
    let rest ← expect ']' (skipSpaces rest)
    return (.table path, rest)
  | _ => none

/-- Adds an assignment in front of the others of a section. -/
def Section.cons (first : Assignment) (part : Section) : Section :=
  { part with assignments := first :: part.assignments }

/-- The section with the given heading, from somewhere inside it, and the sections after it. -/
def sectionsFrom (current : Heading) (text : Text) : Option (Section × List Section) :=
  match skipFiller false text with
  | [] => some ({ heading := current, assignments := [] }, [])
  | '[' :: tail =>
    match heading ('[' :: tail) with
    | none => none
    | some (next, rest) =>
      match endLine? rest with
      | none => none
      | some rest =>
        if rest.length < text.length then
          (sectionsFrom next rest).map fun (part, parts) =>
            ({ heading := current, assignments := [] }, part :: parts)
        else none
  | ahead =>
    match assignment (value maxDepth) ahead with
    | none => none
    | some (first, rest) =>
      match endLine? rest with
      | none => none
      | some rest =>
        if rest.length < text.length then
          (sectionsFrom current rest).map fun (part, parts) => (part.cons first, parts)
        else none
termination_by text.length

/-- The table of a document. A byte order mark in front of it counts for nothing. -/
def document? (text : Text) : Option Entries :=
  let text := match text with
    | '\ufeff' :: rest => rest
    | text => text
  match sectionsFrom .root text with
  | some (first, others) => Entries.ofSections (first :: others)
  | none => none

end EcmaLex.Toml
