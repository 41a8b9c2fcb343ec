import EcmaLex.Proofs.Numeral
import EcmaLex.Proofs.LexemeEnd
import EcmaLex.Proofs.Rest.Shortens

/-!
# Numerals found again

A numeral is read as far as its notation goes, and a name or a digit must not follow it. In front of a
text that goes on with nothing more it is the same numeral in the same notation, and is judged alike.
-/

namespace EcmaLex

open Matcher

namespace Numeral

theorem isGap_of_isDigit (c : Char) (h : c.isDigit = true) : isGap c = false :=
  isGap_eq_false (isNamePart_of_isDigit h)

theorem foundAgain_digits : digits.FoundAgain :=
  foundAgain_manyOf isGap_of_isDigit

theorem staysAbsent_digits : digits.StaysAbsent :=
  staysAbsent_manyOf isGap_of_isDigit

theorem leadingZero_other (text : Text) (h : text.head? ≠ some '0') : leadingZero text = none := by
  unfold leadingZero
  split
  · exact absurd rfl h
  · rfl

theorem pointFirst_other (text : Text) (h : text.head? ≠ some '.') : pointFirst text = none := by
  unfold pointFirst
  split
  · exact absurd rfl h
  · rfl

theorem foundAgain_leadingZero : leadingZero.FoundAgain :=
  foundAgain_of_head '0' (fun _ => rfl) leadingZero_other foundAgain_digits

theorem staysAbsent_leadingZero : leadingZero.StaysAbsent :=
  staysAbsent_of_head (by decide) (fun _ => rfl) leadingZero_other staysAbsent_digits

theorem foundAgain_pointFirst : pointFirst.FoundAgain :=
  foundAgain_of_head '.' (fun _ => rfl) pointFirst_other foundAgain_digits

theorem staysAbsent_pointFirst : pointFirst.StaysAbsent :=
  staysAbsent_of_head (by decide) (fun _ => rfl) pointFirst_other staysAbsent_digits

theorem wholeFirst_eq_none_iff {text : Text} : wholeFirst text = none ↔ digits text = none := by
  constructor
  · intro h
    unfold wholeFirst at h
    split at h
    · cases h
    · exact h
  · intro h
    simp only [wholeFirst, h]

theorem staysAbsent_wholeFirst : wholeFirst.StaysAbsent := by
  intro text other h hnone
  rw [wholeFirst_eq_none_iff] at hnone ⊢
  exact staysAbsent_digits h hnone

theorem foundAgain_wholeFirst : wholeFirst.FoundAgain := by
  intro lexeme rest other h hfound
  cases hdigits : digits (lexeme ++ rest) with
  | none =>
    rw [wholeFirst_eq_none_iff.2 hdigits] at hfound
    cases hfound
  | some found =>
    obtain ⟨whole, after⟩ := found
    by_cases hpoint : after.head? = some '.'
    · obtain ⟨tail, rfl⟩ := List.head?_eq_some_iff.1 hpoint
      rw [wholeFirst_point hdigits] at hfound
      generalize hfraction : Text.run Char.isDigit tail = run at hfound
      obtain ⟨fraction, after⟩ := run
      obtain ⟨rfl, rfl⟩ := Prod.mk.inj (Option.some.inj hfound)
      obtain rfl := Text.append_of_run hfraction
      rw [Text.run_eq_iff] at hfraction
      have hother : Text.run Char.isDigit (fraction ++ other) = (fraction, other) :=
        Text.run_eq_iff.2 ⟨hfraction.1, h.any_head? isGap_of_isDigit hfraction.2⟩
      rw [List.append_assoc, List.append_assoc, List.singleton_append] at hdigits ⊢
      have hagain : digits (whole ++ '.' :: (fraction ++ other)) =
          some (whole, '.' :: (fraction ++ other)) :=
        foundAgain_digits (h.append ('.' :: fraction)) hdigits
      rw [wholeFirst_point hagain, hother]
      simp
    · rw [wholeFirst_other hdigits hpoint] at hfound
      obtain ⟨rfl, rfl⟩ := Prod.mk.inj (Option.some.inj hfound)
      have hagain := foundAgain_digits h hdigits
      exact wholeFirst_other hagain fun hother => hpoint (h.head? (by decide) hother)

theorem foundAgain_mantissa : mantissa.FoundAgain :=
  foundAgain_wholeFirst.orElse staysAbsent_wholeFirst foundAgain_pointFirst

theorem staysAbsent_mantissa : mantissa.StaysAbsent :=
  staysAbsent_wholeFirst.orElse staysAbsent_pointFirst

theorem foundAgain_signedDigits : signedDigits.FoundAgain := by
  intro lexeme rest other h hfound
  cases lexeme with
  | nil =>
    obtain ⟨hne, -⟩ := lawful_signedDigits hfound
    exact absurd rfl hne
  | cons c lexeme =>
    rw [List.cons_append, signedDigits] at hfound ⊢
    split at hfound
    · next hsign =>
      obtain ⟨tail, htail, heq⟩ := map_extend_eq_some_iff.1 hfound
      obtain rfl : tail = lexeme := (List.cons.inj heq).2
      rw [if_pos hsign, foundAgain_digits h htail]
      rfl
    · next hsign =>
      rw [if_neg hsign]
      rw [← List.cons_append] at hfound ⊢
      exact foundAgain_digits h hfound

theorem announces_of_shortens {edition : Edition} {text other : Text} (h : Shortens other text)
    (hannounces : Announces edition other) : Announces edition text := by
  obtain ⟨radix, hsince, mark, tail, rfl, hmark⟩ := hannounces
  have hgap : isGap mark = false := by
    cases radix <;> simp only [Radix.announcedBy, Bool.or_eq_true, beq_iff_eq] at hmark <;>
      rcases hmark with rfl | rfl <;> decide
  obtain ⟨rest, rfl⟩ := @h ['0', mark] (by simpa using ⟨by decide, hgap⟩) ⟨tail, rfl⟩
  exact ⟨radix, hsince, mark, rest, rfl, hmark⟩

variable {kind : TokenKind} {lexeme rest other : Text}

theorem judge_again (h : Shortens other rest) {found after : Text}
    (hemit : judge found after = { action := .emit kind, lexeme, rest }) :
    found = lexeme ∧ after = rest ∧
      judge lexeme other = { action := .emit kind, lexeme, rest := other } := by
  obtain ⟨hkind, rfl, rfl, hhead⟩ := judge_eq_emit_iff.1 hemit
  have hother := h.any_head? (fun _ => isGap_eq_false) hhead
  exact ⟨rfl, rfl, judge_eq_emit_iff.2 ⟨hkind, rfl, rfl, hother⟩⟩

theorem judgeAnnounced_again (h : Shortens other rest) {radix : Radix} {mark : Char} {tail : Text}
    (hemit : judgeAnnounced radix mark tail = { action := .emit kind, lexeme, rest }) :
    ∃ found, lexeme = '0' :: mark :: found ∧
      judgeAnnounced radix mark (found ++ other) =
        { action := .emit kind, lexeme, rest := other } := by
  unfold judgeAnnounced at hemit
  split at hemit
  · next found after hfound =>
    obtain ⟨rfl, rfl, hagain⟩ := judge_again h hemit
    have hdigits : manyOf (isDigitIn radix.base) (found ++ other) = some (found, other) :=
      foundAgain_manyOf (fun _ hc => isGap_eq_false (isNamePart_of_isDigitIn _ hc)) h
        (by rwa [(lawful_manyOf _ hfound).2])
    refine ⟨found, rfl, ?_⟩
    rw [judgeAnnounced, hdigits]
    exact hagain
  · cases hemit

theorem judgeDecimal_again (h : Shortens other rest) {found after : Text}
    (hmantissa : mantissa (lexeme ++ rest) = some (found, after))
    (hemit : judgeDecimal found after = { action := .emit kind, lexeme, rest }) :
    ∃ later, mantissa (lexeme ++ other) = some (found, later) ∧
      judgeDecimal found later = { action := .emit kind, lexeme, rest := other } := by
  by_cases hmark : after.head?.any isExponentMark = true
  · obtain ⟨c, tail, rfl⟩ : ∃ c tail, after = c :: tail := by
      cases after with
      | nil => cases hmark
      | cons c tail => exact ⟨c, tail, rfl⟩
    have hc : isExponentMark c = true := hmark
    rw [judgeDecimal, if_pos hc] at hemit
    split at hemit
    · next exponent last hsigned =>
      obtain ⟨rfl, rfl, hagain⟩ := judge_again h hemit
      obtain rfl : exponent ++ last = tail := (lawful_signedDigits hsigned).2
      rw [List.append_assoc] at hmantissa ⊢
      refine ⟨c :: (exponent ++ other), foundAgain_mantissa (h.append (c :: exponent)) hmantissa, ?_⟩
      rw [judgeDecimal, if_pos hc, foundAgain_signedDigits h hsigned]
      exact hagain
    · cases hemit
  · rw [Bool.not_eq_true] at hmark
    rw [judgeDecimal_of_head hmark] at hemit
    obtain ⟨rfl, rfl, hagain⟩ := judge_again h hemit
    have hother : other.head?.any isExponentMark = false :=
      h.any_head? (fun _ hc => isGap_eq_false (isNamePart_of_isExponentMark hc)) hmark
    refine ⟨other, foundAgain_mantissa h hmantissa, ?_⟩
    rw [judgeDecimal_of_head hother, hagain]

end Numeral

end EcmaLex
