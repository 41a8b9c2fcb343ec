import EcmaLex.Edition

/-!
# Settings of a scan

A scan follows one edition of the language and may apply only so many rules. Since every rule takes
at least one character, a limit as large as the source is never reached.
-/

namespace EcmaLex

structure Settings where
  edition : Edition := .es5
  /-- How many rules may be applied. -/
  iterationLimit : UInt64 := 10000000
  deriving DecidableEq, Repr

namespace Settings

instance : Inhabited Settings where
  default := {}

/-- Where settings are kept if nothing else is said. -/
def fileName : String := "estok.toml"

/-- Settings under which something can be scanned. -/
def IsUsable (settings : Settings) : Prop :=
  settings.iterationLimit ≠ 0

instance (settings : Settings) : Decidable settings.IsUsable :=
  inferInstanceAs (Decidable (settings.iterationLimit ≠ 0))

end Settings

end EcmaLex
