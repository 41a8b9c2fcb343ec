import EcmaLex.Lexeme.Numeral
import EcmaLex.Proofs.Offset.Basic

/-!
# Numerals by byte offsets

The bytes of a base mark are compared singly, digits are counted from an offset on, and a point, an
exponent letter or a sign moves the offset by one.
-/

namespace EcmaLex

open Text

theorem ascii_announcedBy (radix : Radix) : Text.Ascii radix.announcedBy := by
  cases radix <;> exact (ascii_beq (by decide)).or (ascii_beq (by decide))

namespace Numeral

open Matcher Text

/-- A count of digits, if there are any, after a start of the given length. -/
def counted (before count : Nat) : Option Nat :=
  if 0 < count then some (before + count) else none

def inRadixSize (radix : Radix) : Measure := fun text =>
  if text.byteAny 0 (· == '0') && text.byteAny 1 radix.announcedBy then do
    let rest ← text.dropBytes? 2
    some (counted 2 (rest.runSize (isDigitIn radix.base)))
  else some none

def radixMarkSize (radix : Radix) : Measure := fun text =>
  if text.byteAny 0 (· == '0') && text.byteAny 1 radix.announcedBy then some (some 2)
  else some none

def leadingZeroSize : Measure := fun text =>
  if text.head? = some '0' then do
    let rest ← text.dropBytes? 1
    some (counted 1 (rest.runSize Char.isDigit))
  else some none

def mantissaSize : Measure := fun text => do
  let whole := text.runSize Char.isDigit
  let rest ← text.dropBytes? whole
  if rest.head? = some '.' then do
    let rest ← text.dropBytes? (whole + 1)
    let fraction := rest.runSize Char.isDigit
    some (if 0 < whole ∨ 0 < fraction then some (whole + 1 + fraction) else none)
  else some (counted 0 whole)

def exponentMarkSize : Measure := fun text => do
  match ← mantissaSize text with
  | none => some none
  | some size =>
    let rest ← text.dropBytes? size
    some (if rest.head?.any isExponentMark then some (size + 1) else none)

def isSign (c : Char) : Bool :=
  c == '+' || c == '-'

def scientificSize : Measure := fun text => do
  match ← mantissaSize text with
  | none => some none
  | some size =>
    let rest ← text.dropBytes? size
    if rest.head?.any isExponentMark then do
      let signed ← rest.dropBytes? 1
      let sign := if signed.head?.any isSign then 1 else 0
      let rest ← rest.dropBytes? (1 + sign)
      some (counted (size + 1 + sign) (rest.runSize Char.isDigit))
    else some none

/-- A run of a class, if it is not empty, has the length that is counted. -/
theorem size_manyOf (p : Char → Bool) (read text : Text) :
    ((manyOf p text).map (extend read)).map (fun found => byteSize found.1) =
      counted read.byteSize (text.runSize p) := by
  unfold manyOf counted
  rw [runSize_eq]
  cases hrun : text.takeWhile p with
  | nil => rfl
  | cons c run =>
    rw [if_neg (by simp), if_pos (byteSize_cons_pos c run), Option.map_some, Option.map_some]
    simp [extend, Text.run, hrun]

/-- The two bytes of a base mark are its two characters. -/
theorem mark_cases (radix : Radix) (text : Text) :
    (∃ mark rest, text = '0' :: mark :: rest ∧ radix.announcedBy mark = true) ∨
    ((text.byteAny 0 (· == '0') && text.byteAny 1 radix.announcedBy) = false ∧
      inRadix radix text = none ∧ radixMark radix text = none) := by
  obtain hmark | hother := announced_or radix text
  · exact .inl hmark
  · refine .inr ⟨?_, inRadix_eq_none hother⟩
    have hzero : Ascii (· == '0') := ascii_beq (by decide)
    rcases text with _ | ⟨c, text⟩
    · rfl
    · rw [byteAny_zero_cons hzero]
      by_cases hc : c = '0'
      · subst hc
        rw [byteAny_succ_cons (by decide)]
        cases text with
        | nil => rw [byteAny_nil, Bool.and_false]
        | cons mark rest =>
          rw [byteAny_zero_cons (ascii_announcedBy radix), hother mark rest rfl, Bool.and_false]
      · rw [beq_eq_false_iff_ne.2 hc, Bool.false_and]

theorem byteAny_mark {radix : Radix} {mark : Char} (rest : Text)
    (hmark : radix.announcedBy mark = true) :
    (byteAny ('0' :: mark :: rest) 0 (· == '0') &&
      byteAny ('0' :: mark :: rest) 1 radix.announcedBy) = true := by
  rw [byteAny_zero_cons (ascii_beq (by decide)), byteAny_succ_cons (by decide),
    byteAny_zero_cons (ascii_announcedBy radix), hmark]
  rfl

theorem measures_inRadix (radix : Radix) : Measures (inRadixSize radix) (inRadix radix) := by
  intro text
  obtain ⟨mark, rest, rfl, hmark⟩ | ⟨hbytes, hnone, -⟩ := mark_cases radix text
  · have htwo : byteSize ['0', mark] = 2 :=
      byteSize_two (by decide) (ascii_announcedBy radix mark hmark)
    have hdrop : dropBytes? ('0' :: mark :: rest) 2 = some rest := by
      have h := dropBytes?_append ['0', mark] rest
      rwa [htwo] at h
    have hmatch : inRadix radix ('0' :: mark :: rest) =
        (manyOf (isDigitIn radix.base) rest).map (extend ['0', mark]) := if_pos hmark
    unfold inRadixSize
    rw [if_pos (byteAny_mark rest hmark), hdrop, hmatch, size_manyOf, htwo]
    rfl
  · simp [inRadixSize, hbytes, hnone]

theorem measures_radixMark (radix : Radix) : Measures (radixMarkSize radix) (radixMark radix) := by
  intro text
  obtain ⟨mark, rest, rfl, hmark⟩ | ⟨hbytes, -, hnone⟩ := mark_cases radix text
  · have htwo : byteSize ['0', mark] = 2 :=
      byteSize_two (by decide) (ascii_announcedBy radix mark hmark)
    have hmatch : radixMark radix ('0' :: mark :: rest) = some (['0', mark], rest) := if_pos hmark
    unfold radixMarkSize
    rw [if_pos (byteAny_mark rest hmark), hmatch, Option.map_some, htwo]
  · simp [radixMarkSize, hbytes, hnone]

theorem measures_leadingZero : Measures leadingZeroSize leadingZero := by
  intro text
  unfold leadingZeroSize
  by_cases hhead : text.head? = some '0'
  · obtain ⟨rest, rfl⟩ : ∃ rest, text = '0' :: rest := List.head?_eq_some_iff.1 hhead
    have hdrop : dropBytes? ('0' :: rest) 1 = some rest := dropBytes?_cons '0' rest
    have hsize := size_manyOf Char.isDigit ['0'] rest
    rw [if_pos hhead, hdrop]
    exact congrArg some hsize.symm
  · have hnone : leadingZero text = none := by
      unfold leadingZero
      split
      · exact absurd rfl hhead
      · rfl
    rw [if_neg hhead, hnone]
    rfl

theorem ascii_isExponentMark : Ascii isExponentMark :=
  (ascii_beq (by decide)).or (ascii_beq (by decide))

theorem digits_eq (text : Text) :
    digits text = if (text.takeWhile Char.isDigit).isEmpty then none
      else some (text.takeWhile Char.isDigit, text.dropWhile Char.isDigit) := rfl

theorem measures_mantissa : Measures mantissaSize mantissa := by
  intro text
  have hsplit : text.takeWhile Char.isDigit ++ text.dropWhile Char.isDigit = text :=
    List.takeWhile_append_dropWhile
  have hdigits := digits_eq text
  simp only [mantissaSize]
  rw [dropBytes?_runSize, runSize_eq]
  generalize text.takeWhile Char.isDigit = whole at hsplit hdigits
  generalize hrest : text.dropWhile Char.isDigit = rest at hsplit hdigits
  simp only [bind, Option.bind_some]
  by_cases hpoint : rest.head? = some '.'
  · obtain ⟨tail, rfl⟩ : ∃ tail, rest = '.' :: tail := List.head?_eq_some_iff.1 hpoint
    have hdrop : text.dropBytes? (byteSize whole + 1) = some tail := by
      have h := dropBytes?_append (whole ++ ['.']) tail
      rw [List.append_assoc, List.singleton_append, hsplit, byteSize_append] at h
      exact h
    rw [if_pos hpoint, hdrop, Option.bind_some, runSize_eq]
    cases whole with
    | nil =>
      have hsize := size_manyOf Char.isDigit ['.'] tail
      have hone : byteSize ['.'] = 1 := rfl
      rw [← hsplit, List.nil_append, mantissa_point]
      unfold digits
      rw [hsize, hone, counted, runSize_eq]
      simp
    | cons c whole =>
      have hone : '.'.utf8Size = 1 := rfl
      rw [if_pos (.inl (byteSize_cons_pos c whole)), mantissa_fraction hdigits, Option.map_some]
      simp only [extend, byteSize_append, byteSize_cons, byteSize_nil, Text.run, hone]
  · rw [if_neg hpoint]
    cases whole with
    | nil =>
      rw [← hsplit] at hdigits ⊢
      rw [mantissa_eq_none hdigits hpoint]
      rfl
    | cons c whole =>
      rw [mantissa_whole hdigits hpoint, counted, if_pos (byteSize_cons_pos c whole), Nat.zero_add]
      rfl

theorem measures_exponentMark : Measures exponentMarkSize exponentMark := by
  intro text
  simp only [exponentMarkSize, measures_mantissa text, bind, Option.bind_some]
  cases hmatch : mantissa text with
  | none => simp [exponentMark, Matcher.andThen, hmatch]
  | some found =>
    obtain ⟨lexeme, rest⟩ := found
    obtain ⟨-, rfl⟩ := lawful_mantissa hmatch
    simp only [Option.map_some, dropBytes?_append, Option.bind_some, exponentMark, Matcher.andThen,
      hmatch]
    cases rest with
    | nil => rfl
    | cons c rest =>
      cases hc : isExponentMark c with
      | false => simp [one, hc]
      | true => simp [one, hc, extend, utf8Size_eq_one (ascii_isExponentMark c hc)]

theorem ascii_isSign : Ascii isSign :=
  (ascii_beq (by decide)).or (ascii_beq (by decide))

/-- The digits of an exponent are counted behind its letter, and behind a sign that is there. -/
theorem size_signedDigits {read : Text} {c : Char} (hc : c.utf8Size = 1) {size : Nat}
    (hsize : byteSize read = size + 1) (text : Text) :
    ((dropBytes? (c :: text) (1 + if text.head?.any isSign then 1 else 0)).bind fun rest =>
        some (counted (size + 1 + if text.head?.any isSign then 1 else 0)
          (rest.runSize Char.isDigit))) =
      some (((signedDigits text).map (extend read)).map fun found => byteSize found.1) := by
  have hfirst := dropBytes?_cons c text
  rw [hc] at hfirst
  cases text with
  | nil => rw [List.head?_nil, Option.any_none, if_neg Bool.false_ne_true, Nat.add_zero, hfirst]; rfl
  | cons d rest =>
    rw [List.head?_cons, Option.any_some]
    cases hd : isSign d with
    | true =>
      have hone : d.utf8Size = 1 := utf8Size_eq_one (ascii_isSign d hd)
      have hdrop : dropBytes? (c :: d :: rest) 2 = some rest := by
        have h := dropBytes?_append [c, d] rest
        rwa [byteSize_cons, byteSize_cons, byteSize_nil, hc, hone] at h
      have hmatch : signedDigits (d :: rest) = (manyOf Char.isDigit rest).map (extend [d]) :=
        if_pos hd
      have hmany := size_manyOf Char.isDigit (read ++ [d]) rest
      rw [byteSize_append, byteSize_cons, byteSize_nil, hone, hsize] at hmany
      have hextend : extend read ∘ extend [d] = extend (read ++ [d]) := by
        funext found
        simp [extend]
      rw [if_pos rfl, hdrop, Option.bind_some, hmatch, Option.map_map (extend read), hextend, hmany]
    | false =>
      have hmatch : signedDigits (d :: rest) = manyOf Char.isDigit (d :: rest) :=
        if_neg (by rw [← Bool.not_eq_true] at hd; exact hd)
      have hmany := size_manyOf Char.isDigit read (d :: rest)
      rw [if_neg Bool.false_ne_true, Nat.add_zero, Nat.add_zero, hfirst, Option.bind_some, hmatch,
        hmany, hsize]

theorem measures_scientific : Measures scientificSize scientific := by
  intro text
  simp only [scientificSize, measures_mantissa text, bind, Option.bind_some]
  cases hmatch : mantissa text with
  | none => simp [scientific, exponentMark, Matcher.andThen, hmatch]
  | some found =>
    obtain ⟨lexeme, rest⟩ := found
    obtain ⟨-, rfl⟩ := lawful_mantissa hmatch
    simp only [Option.map_some, dropBytes?_append, Option.bind_some, scientific, exponentMark,
      Matcher.andThen, hmatch]
    cases rest with
    | nil => rfl
    | cons c rest =>
      cases hc : isExponentMark c with
      | false => simp [one, hc]
      | true =>
        have hone := utf8Size_eq_one (ascii_isExponentMark c hc)
        have hdrop := dropBytes?_cons c rest
        rw [hone] at hdrop
        have hmatched : ((one isExponentMark (c :: rest)).map (extend lexeme)) =
            some (lexeme ++ [c], rest) := by
          simp [one, hc]
        have hread : byteSize (lexeme ++ [c]) = byteSize lexeme + 1 := by
          rw [byteSize_append, byteSize_cons, byteSize_nil, hone]
        have hsigned := size_signedDigits hone hread rest
        simp only [List.head?_cons, Option.any_some, hc, if_true, hdrop, Option.bind_some, hmatched]
        exact hsigned

end Numeral

end EcmaLex
