import EcmaLex.Lexeme.Basic
import EcmaLex.Text.Ascii

/-!
# Numerals

A numeral is written in a base announced by `0` and a letter, as a zero followed by more decimal
digits, or in decimal notation with an optional fraction and an optional exponent. The matchers here
take what looks like a numeral wherever it ends; whether something may follow it is for the rules to
say.
-/

namespace EcmaLex.Numeral

open Matcher

/-- At least one decimal digit. -/
def digits : Matcher :=
  manyOf Char.isDigit

/-- A zero, the letter of the base and at least one digit of it. -/
def inRadix (radix : Radix) : Matcher
  | '0' :: mark :: rest =>
    if radix.announcedBy mark then
      (manyOf (isDigitIn radix.base) rest).map (extend ['0', mark])
    else none
  | _ => none

/-- A zero and the letter of the base. -/
def radixMark (radix : Radix) : Matcher
  | '0' :: mark :: rest => if radix.announcedBy mark then some (['0', mark], rest) else none
  | _ => none

/-- A zero and at least one more decimal digit. -/
def leadingZero : Matcher
  | '0' :: rest => (digits rest).map (extend ['0'])
  | _ => none

/-- Digits, then a point and any digits after it if the point is there. -/
def wholeFirst : Matcher := fun text =>
  match digits text with
  | some (whole, '.' :: rest) => some (extend (whole ++ ['.']) (Text.run Char.isDigit rest))
  | found => found

/-- A point and at least one digit. -/
def pointFirst : Matcher
  | '.' :: rest => (digits rest).map (extend ['.'])
  | _ => none

/-- Decimal notation without an exponent. -/
def mantissa : Matcher :=
  wholeFirst.orElse pointFirst

def isExponentMark (c : Char) : Bool :=
  c == 'e' || c == 'E'

/-- At least one digit, with a plus or a minus before it or not. -/
def signedDigits : Matcher
  | [] => none
  | c :: rest =>
    if c == '+' || c == '-' then (digits rest).map (extend [c]) else digits (c :: rest)

/-- Decimal notation up to the letter of the exponent. -/
def exponentMark : Matcher :=
  mantissa.andThen (one isExponentMark)

/-- Decimal notation with an exponent. -/
def scientific : Matcher :=
  exponentMark.andThen signedDigits

theorem lawful_digits : digits.Lawful :=
  lawful_manyOf _

theorem lawful_inRadix (radix : Radix) : (inRadix radix).Lawful := by
  intro text lexeme rest h
  unfold inRadix at h
  split at h
  · obtain ⟨-, hmap⟩ := Option.ite_none_right_eq_some.1 h
    obtain ⟨found, hfound, rfl⟩ := map_extend_eq_some_iff.1 hmap
    exact ⟨by simp, by simp [(lawful_manyOf _ hfound).2]⟩
  · simp at h

theorem lawful_radixMark (radix : Radix) : (radixMark radix).Lawful := by
  intro text lexeme rest h
  unfold radixMark at h
  split at h
  · simp only [Option.ite_none_right_eq_some, Option.some.injEq, Prod.mk.injEq] at h
    obtain ⟨-, rfl, rfl⟩ := h
    simp
  · simp at h

theorem lawful_leadingZero : leadingZero.Lawful := by
  intro text lexeme rest h
  unfold leadingZero at h
  split at h
  · obtain ⟨found, hfound, rfl⟩ := map_extend_eq_some_iff.1 h
    exact ⟨by simp, by simp [(lawful_digits hfound).2]⟩
  · simp at h

theorem lawful_wholeFirst : wholeFirst.Lawful := by
  intro text lexeme rest h
  unfold wholeFirst at h
  split at h
  · next whole tail hdigits =>
    simp only [Option.some.injEq, extend, Prod.mk.injEq] at h
    obtain ⟨rfl, rfl⟩ := h
    exact ⟨by simp, by simp [(lawful_digits hdigits).2]⟩
  · exact lawful_digits h

theorem lawful_pointFirst : pointFirst.Lawful := by
  intro text lexeme rest h
  unfold pointFirst at h
  split at h
  · obtain ⟨found, hfound, rfl⟩ := map_extend_eq_some_iff.1 h
    exact ⟨by simp, by simp [(lawful_digits hfound).2]⟩
  · simp at h

theorem lawful_mantissa : mantissa.Lawful :=
  lawful_wholeFirst.orElse lawful_pointFirst

theorem lawful_signedDigits : signedDigits.Lawful := by
  intro text lexeme rest h
  unfold signedDigits at h
  split at h
  · simp at h
  · split at h
    · obtain ⟨found, hfound, rfl⟩ := map_extend_eq_some_iff.1 h
      exact ⟨by simp, by simp [(lawful_digits hfound).2]⟩
    · exact lawful_digits h

theorem lawful_exponentMark : exponentMark.Lawful :=
  lawful_mantissa.andThen (lawful_one _)

theorem lawful_scientific : scientific.Lawful :=
  lawful_exponentMark.andThen lawful_signedDigits

theorem inRadix_eq_none {radix : Radix} {text : Text}
    (h : ∀ mark rest, text = '0' :: mark :: rest → radix.announcedBy mark = false) :
    inRadix radix text = none ∧ radixMark radix text = none := by
  unfold inRadix radixMark
  split
  · next mark rest =>
    have hmark := h mark rest rfl
    simp [hmark]
  · exact ⟨rfl, rfl⟩

theorem announced_or (radix : Radix) (text : Text) :
    (∃ mark rest, text = '0' :: mark :: rest ∧ radix.announcedBy mark = true) ∨
      ∀ mark rest, text = '0' :: mark :: rest → radix.announcedBy mark = false := by
  by_cases h : ∃ mark rest, text = '0' :: mark :: rest ∧ radix.announcedBy mark = true
  · exact .inl h
  · refine .inr fun mark rest heq => ?_
    rw [Bool.eq_false_iff]
    exact fun hmark => h ⟨mark, rest, heq, hmark⟩

theorem wholeFirst_point {text whole rest : Text} (h : digits text = some (whole, '.' :: rest)) :
    wholeFirst text = some (extend (whole ++ ['.']) (Text.run Char.isDigit rest)) := by
  simp only [wholeFirst, h]

theorem wholeFirst_other {text whole rest : Text} (h : digits text = some (whole, rest))
    (hrest : rest.head? ≠ some '.') : wholeFirst text = some (whole, rest) := by
  rw [wholeFirst, h]
  split
  · next heq =>
    obtain ⟨-, rfl⟩ := Prod.mk.inj (Option.some.inj heq)
    exact absurd rfl hrest
  · rfl

theorem mantissa_fraction {text whole rest : Text} (h : digits text = some (whole, '.' :: rest)) :
    mantissa text = some (extend (whole ++ ['.']) (Text.run Char.isDigit rest)) := by
  rw [mantissa, Matcher.orElse, wholeFirst_point h]

theorem mantissa_whole {text whole rest : Text} (h : digits text = some (whole, rest))
    (hrest : rest.head? ≠ some '.') : mantissa text = some (whole, rest) := by
  rw [mantissa, Matcher.orElse, wholeFirst_other h hrest]

theorem mantissa_point (rest : Text) : mantissa ('.' :: rest) = (digits rest).map (extend ['.']) := rfl

theorem mantissa_eq_none {text : Text} (h : digits text = none) (hhead : text.head? ≠ some '.') :
    mantissa text = none := by
  have hwhole : wholeFirst text = none := by simp only [wholeFirst, h]
  have hpoint : pointFirst text = none := by
    unfold pointFirst
    split
    · exact absurd rfl hhead
    · rfl
  simp only [mantissa, Matcher.orElse, hwhole, hpoint]

end EcmaLex.Numeral
