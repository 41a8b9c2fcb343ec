import EcmaLex.Lexeme.Name
import EcmaLex.Proofs.Offset.Basic

/-!
# Names by byte offsets

A plain unit of a name is taken to be one byte long and an escaped one six bytes, and the text is cut
after every unit.
-/

namespace EcmaLex

open Text

theorem ascii_digitValue : Ascii fun c => (digitValue? c).isSome := by
  intro c hc
  unfold digitValue? at hc
  by_cases hdigit : c.isDigit = true
  · exact ascii_isDigit c hdigit
  · by_cases hlower : c.isLower = true
    · exact ascii_isAlpha c (Bool.or_eq_true_iff.2 (.inr hlower))
    · by_cases hupper : c.isUpper = true
      · exact ascii_isAlpha c (Bool.or_eq_true_iff.2 (.inl hupper))
      · simp [hdigit, hlower, hupper] at hc

namespace Name

open Matcher Text

/-- A whole run of plain name characters that is one of the given words. -/
def wordSize (words : List Text) : Measure := fun text => do
  let word ← text.takeBytes? (text.runSize isNamePart)
  some (if word ∈ words then some (text.runSize isNamePart) else none)

def isHexadecimal (c : Char) : Bool :=
  (hexValue? c).isSome

/-- What digits are worth, one after the other. -/
def hexCode (digits : Text) : Nat :=
  digits.foldl (fun code c => 16 * code + (hexValue? c).getD 0) 0

/-- The code named by the two bytes after the start of an escape, if there are two and they are
digits. -/
def escapeCode? (text : Text) : Option Nat :=
  if ['\\', 'u', '0', '0'].isPrefixOf text then do
    let digits ← takeBytes? (text.drop 4) 2
    if digits.byteAny 0 isHexadecimal && digits.byteAny 1 isHexadecimal then some (hexCode digits)
    else none
  else none

/-- The length of a unit: one byte, or six for an escape. -/
def unitSize (p : Char → Bool) : Text → Option Nat
  | [] => none
  | '\\' :: rest =>
    if (escapeCode? ('\\' :: rest)).any fun code => p (Char.ofNat code) then some 6 else none
  | c :: _ => if p c then some 1 else none

theorem unitSize_pos {p : Char → Bool} {text : Text} {n : Nat} (h : unitSize p text = some n) :
    0 < n ∧ 0 < text.byteSize := by
  cases text with
  | nil => cases h
  | cons c rest =>
    have hc := c.utf8Size_pos
    rw [byteSize_cons]
    unfold unitSize at h
    split at h
    · cases h
    · obtain ⟨-, hn⟩ := Option.ite_none_right_eq_some.1 h
      cases hn
      omega
    · obtain ⟨-, hn⟩ := Option.ite_none_right_eq_some.1 h
      cases hn
      omega

/-- The offset after the units that go on from an offset. -/
def unitsFrom (text : Text) (offset : Nat) : Option Nat :=
  match _h : text.dropBytes? offset with
  | none => none
  | some rest =>
    match _hunit : unitSize isNamePart rest with
    | some n => unitsFrom text (offset + n)
    | none => some offset
termination_by text.byteSize - offset
decreasing_by
  have hsize := byteSize_of_dropBytes? _h
  have hpos := unitSize_pos _hunit
  omega

def identifierSize : Measure := fun text =>
  match unitSize isNameStart text with
  | some n => (unitsFrom text n).map some
  | none => some none

theorem measures_wordIn (words : List Text) : Measures (wordSize words) (wordIn words) := by
  intro text
  have hcut := takeBytes?_append (text.takeWhile isNamePart) (text.dropWhile isNamePart)
  rw [List.takeWhile_append_dropWhile] at hcut
  simp only [wordSize, runSize_eq, hcut, bind, Option.bind_some, wordIn]
  by_cases hmem : text.takeWhile isNamePart ∈ words
  · simp only [if_pos hmem, Option.map_some, Text.run]
  · simp only [if_neg hmem, Option.map_none]

theorem ascii_isHexadecimal : Ascii isHexadecimal := by
  intro c hc
  apply ascii_digitValue c
  unfold isHexadecimal hexValue? at hc
  cases hvalue : digitValue? c with
  | none => simp [hvalue] at hc
  | some value => simp [hvalue]

/-- Two bytes that are digits are two characters. -/
theorem eq_pair_of_bytes {digits : Text} (hsize : byteSize digits = 2)
    (hfirst : digits.byteAny 0 isHexadecimal = true)
    (hsecond : digits.byteAny 1 isHexadecimal = true) :
    ∃ high low, digits = [high, low] ∧ isHexadecimal high = true ∧ isHexadecimal low = true := by
  cases digits with
  | nil => cases hsize
  | cons high digits =>
    rw [byteAny_zero_cons ascii_isHexadecimal] at hfirst
    have hhigh := ascii_isHexadecimal high hfirst
    rw [byteAny_succ_cons hhigh, byteAny_zero ascii_isHexadecimal] at hsecond
    rw [byteSize_cons, utf8Size_eq_one hhigh] at hsize
    cases digits with
    | nil => cases hsecond
    | cons low digits =>
      have hlow := ascii_isHexadecimal low hsecond
      rw [byteSize_cons, utf8Size_eq_one hlow] at hsize
      have hnil : digits = [] := byteSize_eq_zero_iff.1 (by omega)
      exact ⟨high, low, by rw [hnil], hfirst, hsecond⟩

theorem escapeCode?_eq_some_iff {text : Text} {code : Nat} :
    escapeCode? text = some code ↔ ∃ high low rest,
      text = '\\' :: 'u' :: '0' :: '0' :: high :: low :: rest ∧ isHexadecimal high = true ∧
        isHexadecimal low = true ∧ code = hexCode [high, low] := by
  constructor
  · intro h
    obtain ⟨hopens, hdigits⟩ := Option.ite_none_right_eq_some.1 h
    obtain ⟨tail, rfl⟩ := List.isPrefixOf_iff_prefix.1 hopens
    obtain ⟨digits, htake, hcode⟩ := Option.bind_eq_some_iff.1 hdigits
    obtain ⟨⟨left, right⟩, hcut, rfl⟩ := Option.map_eq_some_iff.1 htake
    obtain ⟨hsize, happend⟩ := splitAtByte?_eq_some_iff.1 hcut
    obtain ⟨hbytes, hcode⟩ := Option.ite_none_right_eq_some.1 hcode
    rw [Bool.and_eq_true] at hbytes
    obtain ⟨high, low, rfl, hhigh, hlow⟩ := eq_pair_of_bytes hsize.symm hbytes.1 hbytes.2
    exact ⟨high, low, right, congrArg _ happend.symm, hhigh, hlow, (Option.some.inj hcode).symm⟩
  · intro h
    obtain ⟨high, low, rest, rfl, hhigh, hlow, rfl⟩ := h
    have hone := ascii_isHexadecimal high hhigh
    have hcut := takeBytes?_append [high, low] rest
    rw [byteSize_two hone (ascii_isHexadecimal low hlow)] at hcut
    have hopens : ['\\', 'u', '0', '0'].isPrefixOf
        ('\\' :: 'u' :: '0' :: '0' :: high :: low :: rest) = true := by
      simp
    have hbytes : (byteAny [high, low] 0 isHexadecimal && byteAny [high, low] 1 isHexadecimal) =
        true := by
      rw [byteAny_zero_cons ascii_isHexadecimal, byteAny_succ_cons hone,
        byteAny_zero_cons ascii_isHexadecimal, hhigh, hlow]
      rfl
    have hdrop : List.drop 4 ('\\' :: 'u' :: '0' :: '0' :: high :: low :: rest) =
        [high, low] ++ rest := rfl
    rw [escapeCode?, if_pos hopens, hdrop, hcut]
    exact if_pos hbytes

theorem escaped?_of_hexadecimal {high low : Char} (hhigh : isHexadecimal high = true)
    (hlow : isHexadecimal low = true) :
    escaped? high low = some (Char.ofNat (hexCode [high, low])) := by
  obtain ⟨h, hh⟩ := Option.isSome_iff_exists.1 hhigh
  obtain ⟨l, hl⟩ := Option.isSome_iff_exists.1 hlow
  simp [escaped?, hexCode, hh, hl]

theorem hexadecimal_of_escaped? {high low : Char} (h : (escaped? high low).isSome = true) :
    isHexadecimal high = true ∧ isHexadecimal low = true := by
  unfold escaped? at h
  split at h
  · next hhigh hlow => exact ⟨by simp [isHexadecimal, hhigh], by simp [isHexadecimal, hlow]⟩
  · cases h

/-- An escape is one for the byte reader exactly where it is one for the reader of characters. -/
theorem unitSize_backslash {p : Char → Bool} (hslash : p '\\' = false) (rest : Text) :
    unitSize p ('\\' :: rest) = (nameUnit p ('\\' :: rest)).map fun found => byteSize found.1 := by
  rw [unitSize]
  cases hcode : escapeCode? ('\\' :: rest) with
  | some code =>
    obtain ⟨high, low, tail, htext, hhigh, hlow, rfl⟩ := escapeCode?_eq_some_iff.1 hcode
    obtain rfl : rest = 'u' :: '0' :: '0' :: high :: low :: tail := (List.cons.inj htext).2
    have hone := utf8Size_eq_one (ascii_isHexadecimal high hhigh)
    have htwo := utf8Size_eq_one (ascii_isHexadecimal low hlow)
    rw [nameUnit, escaped?_of_hexadecimal hhigh hlow, Option.any_some, Option.any_some]
    cases p (Char.ofNat (hexCode [high, low])) with
    | false => rfl
    | true =>
      simp only [if_true, Option.map_some, byteSize_cons, byteSize_nil, hone, htwo]
      rfl
  | none =>
    have hnone : nameUnit p ('\\' :: rest) = none := by
      unfold nameUnit
      split
      · rfl
      · next high low tail htext =>
        have hescaped : escaped? high low = none := by
          rw [← Option.not_isSome_iff_eq_none]
          intro hsome
          obtain ⟨hhigh, hlow⟩ := hexadecimal_of_escaped? hsome
          rw [escapeCode?_eq_some_iff.2 ⟨high, low, tail, htext, hhigh, hlow, rfl⟩] at hcode
          cases hcode
        rw [hescaped]
        rfl
      · next htext =>
        rw [← (List.cons.inj htext).1, hslash]
        rfl
    rw [hnone]
    rfl

theorem unitSize_eq {p : Char → Bool} (hp : Ascii p) (hslash : p '\\' = false) (text : Text) :
    unitSize p text = (nameUnit p text).map fun found => byteSize found.1 := by
  cases text with
  | nil => rfl
  | cons c rest =>
    by_cases hc : c = '\\'
    · rw [hc]
      exact unitSize_backslash hslash rest
    · have hmatch : nameUnit p (c :: rest) = if p c then some ([c], rest) else none :=
        nameUnit_plain fun _ _ _ heq => hc (List.cons.inj heq).1
      rw [hmatch, unitSize]
      · cases hpc : p c with
        | false => rfl
        | true =>
          have hone := utf8Size_eq_one (hp c hpc)
          simp only [if_true, Option.map_some, byteSize_cons, byteSize_nil, hone]
      · exact hc

theorem unitsFrom_eq (left right : Text) :
    unitsFrom (left ++ right) left.byteSize =
      match unitSize isNamePart right with
      | some n => unitsFrom (left ++ right) (left.byteSize + n)
      | none => some left.byteSize := by
  rw [unitsFrom]
  split
  · next hcut =>
    rw [dropBytes?_append] at hcut
    cases hcut
  · next rest hcut =>
    rw [dropBytes?_append] at hcut
    obtain rfl := Option.some.inj hcut
    split
    · next hunit => simp only [hunit]
    · next hunit => simp only [hunit]

theorem unitsFrom_append (left right : Text) :
    unitsFrom (left ++ right) left.byteSize =
      some (left.byteSize + byteSize (continuation right).1) := by
  have hunits := unitSize_eq ascii_isNamePart (by decide)
  fun_induction continuation right generalizing left with
  | case1 text unit rest hunit ih =>
    have hsize := hunits text
    obtain ⟨-, rfl⟩ := lawful_nameUnit _ hunit
    rw [hunit, Option.map_some] at hsize
    have hlater := ih (left ++ unit)
    rw [unitsFrom_eq, hsize]
    simp only [extend, byteSize_append, List.append_assoc] at hlater ⊢
    rw [hlater, Nat.add_assoc]
  | case2 text hunit =>
    have hsize := hunits text
    rw [hunit, Option.map_none] at hsize
    rw [unitsFrom_eq, hsize]
    rfl

theorem measures_identifier : Measures identifierSize identifier := by
  intro text
  simp only [identifierSize, unitSize_eq ascii_isNameStart (by decide), identifier]
  cases hunit : nameUnit isNameStart text with
  | none => rfl
  | some found =>
    obtain ⟨unit, rest⟩ := found
    obtain ⟨-, rfl⟩ := lawful_nameUnit _ hunit
    simp only [Option.map_some, unitsFrom_append, extend, byteSize_append]

end Name

end EcmaLex
