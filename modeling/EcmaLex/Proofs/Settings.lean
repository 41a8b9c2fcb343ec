import EcmaLex.Proofs.Toml
import EcmaLex.Settings.Document
import Mathlib.Algebra.Group.Nat.Defs

/-!
# Settings written and read

Settings are written as two lines, by a library that keeps such lines: `KeptBy`. What is written is read back
as the same settings before these are checked: `read_write?`. So they come back just if something can be
scanned under them and a document can hold their limit. The other name of an edition is never written, since
it is the number of none.
-/

namespace EcmaLex.Settings

open Toml

/-- What settings rely on of the library that keeps them. -/
structure KeptBy (library : Library) : Prop where
  /-- Two numbers that a document can hold are written under their keys, in decimal, a line each. -/
  write_lines : ∀ {edition limit : Nat}, edition < integerBound → limit < integerBound →
    library.write [(editionKey, edition), (limitKey, limit)] =
      some (line editionKey edition ++ line limitKey limit)
  /-- A limit that no document can hold is not written. -/
  write_large : ∀ {edition limit : Nat}, integerBound ≤ limit →
    library.write [(editionKey, edition), (limitKey, limit)] = none
  /-- Such lines are read as the numbers under their keys. -/
  read_lines : ∀ {edition limit : Nat}, edition < integerBound → limit < integerBound →
    ∃ table, library.read (line editionKey edition ++ line limitKey limit) = some table ∧
      table.get? editionKey = some (.leaf (.integer edition)) ∧
      table.get? limitKey = some (.leaf (.integer limit))

theorem editionKey_ne_limitKey : editionKey ≠ limitKey := by
  decide +kernel

/-- The library that writes and reads whole documents of lines keeps settings. -/
theorem keptBy_library : KeptBy Toml.library where
  write_lines hedition hlimit := by
    simp [library, linesText, hedition, hlimit]
  write_large hlimit := by
    simp [library, Nat.not_lt.2 hlimit]
  read_lines {edition limit} hedition hlimit := by
    have heditionKey : Text.IsRun isBare editionKey := ⟨by decide +kernel, by decide +kernel⟩
    have hlimitKey : Text.IsRun isBare limitKey := ⟨by decide +kernel, by decide +kernel⟩
    obtain ⟨table, hread, hget⟩ := @document?_lines [(editionKey, edition), (limitKey, limit)]
      (by simp [heditionKey, hlimitKey]) (by simp [hedition, hlimit])
      (by simp [editionKey_ne_limitKey])
    refine ⟨table, ?_, ?_, ?_⟩
    · simpa [library, linesText] using hread
    · rw [hget, List.lookup_cons, beq_self_eq_true]
      rfl
    · have hne : (limitKey == editionKey) = false := beq_eq_false_iff_ne.2 editionKey_ne_limitKey.symm
      rw [hget, List.lookup_cons, hne, List.lookup_cons, beq_self_eq_true]
      rfl

/-- The two lines of a document of settings. -/
example : (toToml? { edition := .es2016, iterationLimit := 42 }).map String.ofList =
    some "edition = 2016\niteration_limit = 42\n" := by
  decide +kernel

theorem natUnder_of_get? {table : Entries} {name : Text} {n : Nat}
    (hget : table.get? name = some (.leaf (.integer n))) {bound : Nat} (hbound : n < bound)
    (missing : Nat) : natUnder table name bound missing = some n := by
  rw [natUnder, hget]
  simp [hbound]

theorem isUsable_iff {settings : Settings} :
    settings.IsUsable ↔ 1 ≤ settings.iterationLimit.toNat := by
  rw [IsUsable, Ne, ← UInt64.toNat_inj, Nat.one_le_iff_ne_zero]
  rfl

theorem validate_eq_ok_iff {settings : Settings} :
    settings.validate = .ok settings ↔ settings.IsUsable := by
  unfold validate
  split
  · next h => exact iff_of_true rfl h
  · next h => exact iff_of_false nofun h

theorem number_lt_integerBound (settings : Settings) :
    settings.edition.number.toNat < integerBound := by
  have hnumber : settings.edition.number.toNat < 2 ^ 32 := settings.edition.number.toNat_lt
  exact Nat.lt_of_lt_of_le hnumber (by decide)

/-- The numbers of settings under their keys are read as these settings. -/
theorem ofEntries?_eq {settings : Settings} {table : Entries}
    (hbound : settings.iterationLimit.toNat < integerBound)
    (hedition : table.get? editionKey = some (.leaf (.integer settings.edition.number.toNat)))
    (hlimit : table.get? limitKey = some (.leaf (.integer settings.iterationLimit.toNat))) :
    ofEntries? table = some settings := by
  have hnumber : settings.edition.number.toNat < UInt32.size := settings.edition.number.toNat_lt
  have hsame : Edition.ofNumber settings.edition.number.toNat.toUInt32 = settings.edition := by
    rw [Nat.toUInt32, UInt32.ofNat_toNat, Edition.ofNumber_number]
  have hwhole : settings.iterationLimit.toNat.toUInt64 = settings.iterationLimit :=
    UInt64.ofNat_toNat
  simp only [ofEntries?, natUnder_of_get? hedition hnumber, natUnder_of_get? hlimit hbound,
    Option.bind_eq_bind, Option.bind_some, hsame, hwhole]
  rfl

section Library

variable {library : Library} (hkept : KeptBy library) {settings : Settings}

include hkept

theorem exists_write? (hbound : settings.iterationLimit.toNat < integerBound) :
    ∃ text, settings.write? library = some text :=
  ⟨_, hkept.write_lines settings.number_lt_integerBound hbound⟩

/-- Settings are written exactly if a document can hold their limit. -/
theorem write?_eq_none_iff :
    settings.write? library = none ↔ integerBound ≤ settings.iterationLimit.toNat := by
  refine ⟨fun hnone => Nat.not_lt.1 fun hbound => ?_, hkept.write_large⟩
  obtain ⟨text, htext⟩ := exists_write? hkept hbound
  rw [hnone] at htext
  cases htext

theorem lt_of_write? {text : Text} (h : settings.write? library = some text) :
    settings.iterationLimit.toNat < integerBound := by
  refine Nat.not_le.1 fun hlarge => ?_
  rw [(write?_eq_none_iff hkept).2 hlarge] at h
  cases h

/-- The document in which settings are written holds what is theirs under each key. -/
theorem exists_read_of_write? {text : Text} (h : settings.write? library = some text) :
    ∃ table, library.read text = some table ∧
      table.get? editionKey = some (.leaf (.integer settings.edition.number.toNat)) ∧
      table.get? limitKey = some (.leaf (.integer settings.iterationLimit.toNat)) := by
  have hbound := lt_of_write? hkept h
  have hlines := hkept.write_lines settings.number_lt_integerBound hbound
  obtain rfl := Option.some.inj (h.symm.trans hlines)
  exact hkept.read_lines settings.number_lt_integerBound hbound

/-- What settings are written as is read back as those settings, which are checked then. -/
theorem read_write? {text : Text} (h : settings.write? library = some text) :
    read library text = settings.validate := by
  obtain ⟨table, hread, hedition, hlimit⟩ := exists_read_of_write? hkept h
  have hbound := lt_of_write? hkept h
  rw [read, hread, Option.bind_eq_bind, Option.bind_some, ofEntries?_eq hbound hedition hlimit]

/-- From a file that holds what settings are written as, those settings are loaded, or it is said that nothing
can be scanned under them. -/
theorem load_of_write? {files : String → Option (List UInt8)} {path : String} {bytes : List UInt8}
    {text : Text} (hfile : files path = some bytes) (htext : Text.ofUtf8? bytes = some text)
    (h : settings.write? library = some text) :
    load library files path = .ok settings ∨
      ∃ refusal, load library files path = .error refusal ∧
        refusal.message? = some unusableMessage := by
  have hload : load library files path = settings.validate := by
    simp only [load, readBytes, hfile, Option.bind_eq_bind, Option.bind_some, htext,
      read_write? hkept h]
  rw [hload]
  unfold validate
  split
  · exact .inl rfl
  · exact .inr ⟨.unusable, rfl, rfl⟩

end Library

/-- Settings come back from the document in which they are written exactly if something can be scanned under
them and their limit fits in a word with sign. A limit of zero is refused when it is read, and one too large
is not written. The number of the edition stands in the document as it is, and means that edition. -/
theorem toml_round_trip (library : Library) (hkept : KeptBy library) (settings : Settings) :
    ((∃ text, settings.write? library = some text ∧ read library text = .ok settings) ↔
      1 ≤ settings.iterationLimit.toNat ∧ settings.iterationLimit.toNat ≤ 2 ^ 63 - 1) ∧
    (settings.iterationLimit.toNat = 0 →
      ∃ text, settings.write? library = some text ∧ read library text = .error .unusable) ∧
    (settings.write? library = none ↔ 2 ^ 63 - 1 < settings.iterationLimit.toNat) ∧
    ∀ text, settings.write? library = some text →
      ∃ table, library.read text = some table ∧
        table.get? editionKey = some (.leaf (.integer settings.edition.number.toNat)) ∧
        .ofNumber settings.edition.number = settings.edition := by
  have hbound : integerBound = 2 ^ 63 := by decide
  have hwritten : settings.write? library = none ↔ integerBound ≤ settings.iterationLimit.toNat :=
    write?_eq_none_iff hkept
  refine ⟨⟨?_, ?_⟩, ?_, ?_, ?_⟩
  · rintro ⟨text, htext, hread⟩
    rw [read_write? hkept htext, validate_eq_ok_iff, isUsable_iff] at hread
    have hsmall := lt_of_write? hkept htext
    exact ⟨hread, by omega⟩
  · rintro ⟨hpositive, hlimit⟩
    have hsmall : settings.iterationLimit.toNat < integerBound := by omega
    obtain ⟨text, htext⟩ := exists_write? hkept hsmall
    refine ⟨text, htext, ?_⟩
    rw [read_write? hkept htext, validate_eq_ok_iff, isUsable_iff]
    exact hpositive
  · intro hzero
    have hsmall : settings.iterationLimit.toNat < integerBound := by omega
    obtain ⟨text, htext⟩ := exists_write? hkept hsmall
    have hunusable : ¬ settings.IsUsable := by
      rw [isUsable_iff]
      omega
    exact ⟨text, htext, by rw [read_write? hkept htext, validate, if_neg hunusable]⟩
  · rw [hwritten]
    omega
  · intro text htext
    obtain ⟨table, hread, hedition, -⟩ := exists_read_of_write? hkept htext
    exact ⟨table, hread, hedition, Edition.ofNumber_number _⟩

/-- The greatest limit that comes back, and the one above it, which is not written. -/
theorem toml_round_trip_greatest :
    let settings : Settings := { edition := .ofNumber 7, iterationLimit := 9223372036854775807 }
    let above : Settings := { iterationLimit := 9223372036854775808 }
    KeptBy Toml.library ∧
      (∃ text, settings.write? Toml.library = some text ∧ read Toml.library text = .ok settings) ∧
      above.write? Toml.library = none := by
  intro settings above
  obtain ⟨hback, -, -, -⟩ := toml_round_trip Toml.library keptBy_library settings
  obtain ⟨-, -, hwritten, -⟩ := toml_round_trip Toml.library keptBy_library above
  exact ⟨keptBy_library, hback.2 (by decide), hwritten.2 (by decide)⟩

end EcmaLex.Settings
