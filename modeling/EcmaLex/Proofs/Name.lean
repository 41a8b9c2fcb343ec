import EcmaLex.Proofs.Form
import EcmaLex.Proofs.Offset.Name
import EcmaLex.Proofs.Opening

/-!
# What a name is

A name is a unit that can begin one and any number of units that can continue it. A unit is a plain
character or its escape. `Name.IsName` says which texts are names without saying how far to read, and the
reader finds the longest name that a text begins with: `names_read`.
-/

namespace EcmaLex

namespace Name

open Matcher Text

/-- The hexadecimal digit worth `value`, in either case. -/
def IsHexDigit (value : Nat) (c : Char) : Prop :=
  "0123456789abcdef".toList[value]? = some c ∨ "0123456789ABCDEF".toList[value]? = some c

def CanStart (c : Char) : Prop :=
  ('a' ≤ c ∧ c ≤ 'z') ∨ ('A' ≤ c ∧ c ≤ 'Z') ∨ c = '_' ∨ c = '$'

def CanContinue (c : Char) : Prop :=
  CanStart c ∨ ('0' ≤ c ∧ c ≤ '9')

/-- One of the allowed characters, plain or by its code in two hexadecimal digits. -/
inductive IsUnit (allowed : Char → Prop) : Text → Prop where
  | plain {c : Char} (h : allowed c) : IsUnit allowed [c]
  | escaped {c high low : Char} (h : allowed c) (hhigh : IsHexDigit (c.toNat / 16) high)
      (hlow : IsHexDigit (c.toNat % 16) low) : IsUnit allowed ['\\', 'u', '0', '0', high, low]

/-- A unit that can begin a name, and units that continue it. -/
inductive IsName : Text → Prop where
  | mk {first : Text} {later : List Text} (hfirst : IsUnit CanStart first)
      (hlater : ∀ unit ∈ later, IsUnit CanContinue unit) : IsName (first ++ later.flatten)

/-- No name begins here, though an escape or a letter seems to. -/
inductive Barred : Text → Prop where
  | braced (rest : Text) : Barred ('\\' :: 'u' :: '{' :: rest)
  | truncated {rest : Text} (h : rest.length < 5) : Barred ('\\' :: rest)
  /-- Four characters that are not all hexadecimal digits. -/
  | garbled {digits : Text} (rest : Text) (hlength : digits.length = 4)
      (h : ∃ c ∈ digits, ∀ value, ¬ IsHexDigit value c) :
      Barred ('\\' :: 'u' :: (digits ++ rest))
  /-- The escape of a digit, or of any other character that cannot begin a name. -/
  | code {a b c d : Char} {i j k l : Nat} (rest : Text) (ha : IsHexDigit i a) (hb : IsHexDigit j b)
      (hc : IsHexDigit k c) (hd : IsHexDigit l d)
      (hcode : ∀ start, CanStart start → start.toNat ≠ 4096 * i + 256 * j + 16 * k + l) :
      Barred ('\\' :: 'u' :: a :: b :: c :: d :: rest)
  | foreign {c : Char} (rest : Text) (h : 0x80 ≤ c.toNat) : Barred (c :: rest)

theorem hexValue?_eq_some_iff {c : Char} {value : Nat} :
    hexValue? c = some value ↔ IsHexDigit value c := by
  constructor
  · intro h
    have hascii : c.toNat < 128 := ascii_isHexadecimal c (by simp [isHexadecimal, h])
    have hdigit : ∀ v ∈ hexValue? c, IsHexDigit v c := by
      refine forall_ascii ?_ c hascii
      unfold IsHexDigit
      decide +kernel
    exact hdigit value h
  · have hdigits : ∀ digits ∈ ["0123456789abcdef".toList, "0123456789ABCDEF".toList],
        ∀ v < digits.length, digits[v]?.bind hexValue? = some v := by
      decide +kernel
    have hvalue : ∀ digits ∈ ["0123456789abcdef".toList, "0123456789ABCDEF".toList],
        digits[value]? = some c → hexValue? c = some value := by
      intro digits hmem hdigit
      have hfound := hdigits digits hmem value (List.getElem?_eq_some_iff.1 hdigit).1
      rwa [hdigit, Option.bind_some] at hfound
    rintro (h | h)
    · exact hvalue _ (by decide) h
    · exact hvalue _ (by decide) h

theorem IsHexDigit.lt {value : Nat} {c : Char} (h : IsHexDigit value c) : value < 16 := by
  rcases h with h | h
  · exact (List.getElem?_eq_some_iff.1 h).1
  · exact (List.getElem?_eq_some_iff.1 h).1

theorem IsHexDigit.unique {value other : Nat} {c : Char} (h : IsHexDigit value c)
    (hother : IsHexDigit other c) : value = other := by
  rw [← hexValue?_eq_some_iff] at h hother
  exact Option.some.inj (h.symm.trans hother)

theorem isAlpha_iff {c : Char} : c.isAlpha = true ↔ ('a' ≤ c ∧ c ≤ 'z') ∨ ('A' ≤ c ∧ c ≤ 'Z') := by
  have hupper : c.isUpper = true ↔ 'A' ≤ c ∧ c ≤ 'Z' := decide_eq_true_iff
  have hlower : c.isLower = true ↔ 'a' ≤ c ∧ c ≤ 'z' :=
    Bool.and_eq_true_iff.trans (and_congr decide_eq_true_iff decide_eq_true_iff)
  rw [or_comm, ← hupper, ← hlower]
  exact Bool.or_eq_true_iff

theorem isNameStart_iff {c : Char} : isNameStart c = true ↔ CanStart c := by
  simp only [isNameStart, Bool.or_eq_true, isAlpha_iff, beq_iff_eq, CanStart, or_assoc]

theorem isNamePart_iff {c : Char} : isNamePart c = true ↔ CanContinue c := by
  have hdigit : c.isDigit = true ↔ '0' ≤ c ∧ c ≤ '9' :=
    Bool.and_eq_true_iff.trans (and_congr decide_eq_true_iff decide_eq_true_iff)
  have halphanum : c.isAlphanum = true ↔ c.isAlpha = true ∨ c.isDigit = true :=
    Bool.or_eq_true_iff
  rw [CanContinue, ← isNameStart_iff, ← hdigit]
  simp only [isNameStart, isNamePart, Bool.or_eq_true, halphanum]
  tauto

/-- Two digits name the character whose code they spell. -/
theorem escaped?_eq_some_iff {high low c : Char} :
    escaped? high low = some c ↔ IsHexDigit (c.toNat / 16) high ∧ IsHexDigit (c.toNat % 16) low := by
  constructor
  · intro h
    unfold escaped? at h
    split at h
    · next i j hhigh hlow =>
      rw [hexValue?_eq_some_iff] at hhigh hlow
      have hi := hhigh.lt
      have hj := hlow.lt
      have hcode : c.toNat = 16 * i + j := by
        rw [← Option.some.inj h]
        exact toNat_ofNat (by omega)
      rw [hcode, show (16 * i + j) / 16 = i by omega, show (16 * i + j) % 16 = j by omega]
      exact ⟨hhigh, hlow⟩
    · cases h
  · rintro ⟨hhigh, hlow⟩
    rw [← hexValue?_eq_some_iff] at hhigh hlow
    simp only [escaped?, hhigh, hlow, Nat.div_add_mod, Char.ofNat_toNat]

section Units

variable {p : Char → Bool} {allowed : Char → Prop}

theorem recognizes_nameUnit (hp : ∀ c, p c = true ↔ allowed c) (hslash : p '\\' = false) :
    (nameUnit p).Recognizes (IsUnit allowed) := by
  intro text unit rest
  constructor
  · intro h
    refine ⟨?_, (lawful_nameUnit p h).2⟩
    obtain ⟨c, rfl, hc⟩ | ⟨high, low, c, rfl, hescaped, hc⟩ := cases_of_nameUnit h
    · exact .plain ((hp c).1 hc)
    · obtain ⟨hhigh, hlow⟩ := escaped?_eq_some_iff.1 hescaped
      exact .escaped ((hp c).1 hc) hhigh hlow
  · rintro ⟨hunit, rfl⟩
    cases hunit with
    | @plain c h =>
      have hpc := (hp c).2 h
      have hc : c ≠ '\\' := by
        rintro rfl
        rw [hslash] at hpc
        cases hpc
      rw [List.singleton_append, nameUnit_plain fun _ _ _ heq => hc (List.cons.inj heq).1]
      exact if_pos hpc
    | @escaped c high low h hhigh hlow =>
      have hany : (escaped? high low).any p = true := by
        rw [escaped?_eq_some_iff.2 ⟨hhigh, hlow⟩, Option.any_some, (hp c).2 h]
      exact if_pos hany

end Units

theorem recognizes_start : (nameUnit isNameStart).Recognizes (IsUnit CanStart) :=
  recognizes_nameUnit (fun _ => isNameStart_iff) rfl

theorem recognizes_part : (nameUnit isNamePart).Recognizes (IsUnit CanContinue) :=
  recognizes_nameUnit (fun _ => isNamePart_iff) rfl

/-- What continues a name is made of units. -/
theorem exists_units_continuation (text : Text) :
    ∃ units : List Text, (∀ unit ∈ units, IsUnit CanContinue unit) ∧
      (continuation text).1 = units.flatten := by
  fun_induction continuation text with
  | case1 text unit rest hunit ih =>
    obtain ⟨units, hunits, hflatten⟩ := ih
    refine ⟨unit :: units, List.forall_mem_cons.2 ⟨(recognizes_part.1 hunit).1, hunits⟩, ?_⟩
    rw [List.flatten_cons, ← hflatten]
    rfl
  | case2 => exact ⟨[], by simp, rfl⟩

/-- Units at the start of a text stand in what continues a name there. -/
theorem prefix_continuation {units : List Text} {text : Text}
    (hunits : ∀ unit ∈ units, IsUnit CanContinue unit) (hbegins : units.flatten <+: text) :
    units.flatten <+: (continuation text).1 := by
  induction units generalizing text with
  | nil => exact List.nil_prefix
  | cons unit units ih =>
    obtain ⟨hunit, hunits⟩ := List.forall_mem_cons.1 hunits
    obtain ⟨rest, rfl⟩ := hbegins
    rw [List.flatten_cons, List.append_assoc, continuation_some (recognizes_part.2 ⟨hunit, rfl⟩)]
    exact (List.prefix_append_right_inj unit).2 (ih hunits (List.prefix_append _ rest))

theorem munches_identifier : identifier.Munches IsName := by
  constructor
  · intro text lexeme rest h
    obtain ⟨hne, happend⟩ := lawful_identifier h
    unfold identifier at h
    split at h
    · next first tail hfirst =>
      obtain rfl : first ++ (continuation tail).1 = lexeme :=
        congrArg Prod.fst (Option.some.inj h)
      obtain ⟨hunit, rfl⟩ := recognizes_start.1 hfirst
      obtain ⟨units, hunits, hflatten⟩ := exists_units_continuation tail
      refine ⟨hflatten ▸ .mk hunit hunits, happend, ?_⟩
      rintro _ @⟨other, later, hother, hlater⟩ hbegins
      -- No text begins with two units, so the other name differs only in what continues it.
      obtain rfl : other = first :=
        recognizes_start.unique hother hunit ((List.prefix_append _ _).trans hbegins)
          (List.prefix_append _ _)
      rw [List.prefix_append_right_inj] at hbegins
      have hle := (prefix_continuation hlater hbegins).length_le
      simp only [List.length_append]
      omega
    · cases h
  · rintro text hnone _ @⟨first, later, hfirst, -⟩ ⟨rest, rfl⟩
    rw [identifier_eq_none_iff] at hnone
    rw [List.append_assoc, recognizes_start.2 ⟨hfirst, rfl⟩] at hnone
    cases hnone

/-- There is a name exactly where a unit can begin one. -/
theorem identifier_eq_none_iff_units {text : Text} :
    identifier text = none ↔ ∀ unit, IsUnit CanStart unit → ¬ unit <+: text :=
  identifier_eq_none_iff.trans recognizes_start.munches.eq_none_iff

theorem CanStart.lt {c : Char} (h : CanStart c) : c.toNat < 128 :=
  ascii_isNameStart c (isNameStart_iff.2 h)

/-- A unit begins with a backslash only as an escape. -/
theorem IsUnit.exists_escaped {unit rest : Text} (h : IsUnit CanStart unit)
    (hbegins : unit <+: '\\' :: rest) :
    ∃ c high low, CanStart c ∧ IsHexDigit (c.toNat / 16) high ∧ IsHexDigit (c.toNat % 16) low ∧
      ['u', '0', '0', high, low] <+: rest := by
  cases h with
  | plain h =>
    obtain rfl := (List.cons_prefix_cons.1 hbegins).1
    exact absurd (isNameStart_iff.2 h) (by decide)
  | @escaped c high low h hhigh hlow =>
    exact ⟨c, high, low, h, hhigh, hlow, (List.cons_prefix_cons.1 hbegins).2⟩

theorem Barred.identifier_eq_none {text : Text} (h : Barred text) : identifier text = none := by
  rw [identifier_eq_none_iff_units]
  intro unit hunit hbegins
  cases h with
  | braced rest =>
    obtain ⟨c, high, low, -, -, -, hescape⟩ := hunit.exists_escaped hbegins
    simp at hescape
  | truncated hshort =>
    obtain ⟨c, high, low, -, -, -, hescape⟩ := hunit.exists_escaped hbegins
    have hle := hescape.length_le
    simp only [List.length_cons, List.length_nil] at hle
    omega
  | @garbled digits rest hlength hother =>
    obtain ⟨c, high, low, -, hhigh, hlow, hescape⟩ := hunit.exists_escaped hbegins
    obtain ⟨d, hmem, hd⟩ := hother
    have hdigits : ['0', '0', high, low] = digits := by
      have hprefix := (List.cons_prefix_cons.1 hescape).2
      exact (List.prefix_of_prefix_length_le hprefix (List.prefix_append digits rest)
        (Nat.le_of_eq hlength.symm)).eq_of_length hlength.symm
    have hzero : IsHexDigit 0 '0' := .inl rfl
    rw [← hdigits] at hmem
    simp only [List.mem_cons, List.not_mem_nil, or_false] at hmem
    obtain rfl | rfl | rfl | rfl := hmem
    · exact hd 0 hzero
    · exact hd 0 hzero
    · exact hd _ hhigh
    · exact hd _ hlow
  | code rest ha hb hc hd hcode =>
    obtain ⟨start, high, low, hstart, hhigh, hlow, hescape⟩ := hunit.exists_escaped hbegins
    have hzero : IsHexDigit 0 '0' := .inl rfl
    simp only [List.cons_prefix_cons, List.nil_prefix, and_true, true_and] at hescape
    obtain ⟨rfl, rfl, rfl, rfl⟩ := hescape
    apply hcode start hstart
    rw [ha.unique hzero, hb.unique hzero, hc.unique hhigh, hd.unique hlow]
    omega
  | @foreign c rest hforeign =>
    cases hunit with
    | plain h =>
      obtain rfl := (List.cons_prefix_cons.1 hbegins).1
      exact absurd h.lt (by omega)
    | escaped =>
      obtain rfl := (List.cons_prefix_cons.1 hbegins).1
      exact absurd hforeign (by decide)

end Name

/-- The reader of names, which counts bytes and cuts the text after every unit, makes no cut inside a
character. It finds, by its length, the longest name that a text begins with, and nothing exactly where no
unit can begin a name. -/
theorem names_read (text : Text) :
    Name.identifierSize text = some ((Name.identifier text).map fun found => found.1.byteSize) ∧
    (∀ n, (Name.identifier text).map (fun found => found.1.byteSize) = some n ↔
      ∃ lexeme rest, text.takeBytes? n = some lexeme ∧
        text.Longest Name.IsName lexeme rest) ∧
    (Name.identifier text = none ↔
      ∀ unit, Name.IsUnit Name.CanStart unit → ¬ unit <+: text) ∧
    (Name.Barred text → Name.identifier text = none) := by
  refine ⟨Name.measures_identifier text, fun n => ⟨fun hsize => ?_, ?_⟩,
    Name.identifier_eq_none_iff_units, Name.Barred.identifier_eq_none⟩
  · obtain ⟨⟨lexeme, rest⟩, hfound, rfl⟩ := Option.map_eq_some_iff.1 hsize
    have hlongest := Name.munches_identifier.eq_some_iff.1 hfound
    refine ⟨lexeme, rest, ?_, hlongest⟩
    rw [← hlongest.append_eq]
    exact Text.takeBytes?_append lexeme rest
  · rintro ⟨lexeme, rest, htake, hlongest⟩
    obtain ⟨⟨_, after⟩, hcut, rfl⟩ := Option.map_eq_some_iff.1 htake
    obtain ⟨rfl, -⟩ := Text.splitAtByte?_eq_some_iff.1 hcut
    rw [Name.munches_identifier.eq_some_iff.2 hlongest, Option.map_some]

/-- A name of two escapes and a plain letter, up to a letter beyond ASCII. -/
theorem names_read_escapes :
    let name : Text := ['\\', 'u', '0', '0', '6', '1', 'b', '\\', 'u', '0', '0', '3', '1']
    let text : Text := name ++ ['é']
    let digit : Text := ['\\', 'u', '0', '0', '3', '1']
    (Name.identifier text).map (fun found => found.1.byteSize) = some 13 ∧
      text.Longest Name.IsName name ['é'] ∧ Name.Barred digit ∧ Name.identifier digit = none := by
  intro name text digit
  have hdigit : Name.Barred digit := by
    refine .code (i := 0) (j := 0) (k := 3) (l := 1) [] (.inl rfl) (.inl rfl) (.inl rfl) (.inl rfl) ?_
    intro start hstart hcode
    rw [← Name.isNameStart_iff, ← Char.ofNat_toNat start, hcode] at hstart
    exact absurd hstart (by decide)
  have hsize : (Name.identifier text).map (fun found => found.1.byteSize) = some 13 := by
    decide +kernel
  obtain ⟨lexeme, rest, htake, hlongest⟩ := ((names_read text).2.1 13).1 hsize
  have hname : lexeme = name := Option.some.inj (htake.symm.trans (by decide +kernel))
  obtain rfl : rest = ['é'] := by
    have happend := hlongest.append_eq
    rw [hname] at happend
    exact List.append_cancel_left happend
  exact ⟨hsize, hname ▸ hlongest, hdigit, (names_read digit).2.2.2 hdigit⟩

end EcmaLex
