import EcmaLex.Settings
import EcmaLex.Toml.Library

/-!
# Settings as documents

Settings are kept as TOML under two keys of the root table, by whatever library writes and reads it. A
key that is missing leaves the setting as it is by default, and any other key is ignored. Documents
hold integers of sixty-four bits with sign.
-/

namespace EcmaLex.Settings

/-- Why settings could not be had. -/
inductive Refusal where
  /-- There is no document, or it is no text. -/
  | unreadable
  /-- The document is not well formed, or a setting has the wrong type or is out of range. -/
  | malformed
  /-- The settings allow nothing to be scanned. -/
  | unusable
  deriving DecidableEq, Repr

/-- What is wrong with settings that allow nothing to be scanned. -/
def unusableMessage : String :=
  "Invalid configuration: iteration_limit must be greater than zero"

/-- What is said of a refusal, where the words are neither those of the system nor those of the library. -/
def Refusal.message? : Refusal → Option String
  | .unreadable | .malformed => none
  | .unusable => some unusableMessage

/-- The settings themselves, if something can be scanned under them. -/
def validate (settings : Settings) : Except Refusal Settings :=
  if settings.IsUsable then .ok settings else .error .unusable

def editionKey : Text := "edition".toList

def limitKey : Text := "iteration_limit".toList

/-- The integer under a name, which must be at least zero and less than `bound`. A name with nothing
under it stands for `missing`. -/
def natUnder (entries : Toml.Entries) (name : Text) (bound missing : Nat) : Option Nat :=
  match entries.get? name with
  | none => some missing
  | some (.leaf (.integer n)) => if 0 ≤ n && n < bound then some n.toNat else none
  | some _ => none

/-- The settings in the table of a document. -/
def ofEntries? (entries : Toml.Entries) : Option Settings := do
  let standard : Settings := default
  let edition ← natUnder entries editionKey UInt32.size standard.edition.number.toNat
  let limit ← natUnder entries limitKey Toml.integerBound standard.iterationLimit.toNat
  return { edition := .ofNumber edition.toUInt32, iterationLimit := limit.toUInt64 }

/-- The numbers of settings under their keys. -/
def entries (settings : Settings) : List (Text × Nat) :=
  [(editionKey, settings.edition.number.toNat), (limitKey, settings.iterationLimit.toNat)]

/-! ## Kept by a library -/

/-- Writes settings as a document, if the library can write it. -/
def write? (library : Toml.Library) (settings : Settings) : Option Text :=
  library.write settings.entries

/-- Reads settings from a document. -/
def read (library : Toml.Library) (text : Text) : Except Refusal Settings :=
  match library.read text >>= ofEntries? with
  | some settings => settings.validate
  | none => .error .malformed

/-- Reads settings from the bytes of a document, if it exists. -/
def readBytes (library : Toml.Library) (bytes : Option (List UInt8)) : Except Refusal Settings :=
  match bytes >>= Text.ofUtf8? with
  | some text => read library text
  | none => .error .unreadable

/-- Reads settings from the file at a path. -/
def load (library : Toml.Library) (files : String → Option (List UInt8))
    (path : String := fileName) : Except Refusal Settings :=
  readBytes library (files path)

/-! ## Kept by the library of this project -/

def ofToml (text : Text) : Except Refusal Settings :=
  read Toml.library text

def ofBytes (bytes : Option (List UInt8)) : Except Refusal Settings :=
  readBytes Toml.library bytes

def toToml? (settings : Settings) : Option Text :=
  settings.write? Toml.library

end EcmaLex.Settings
