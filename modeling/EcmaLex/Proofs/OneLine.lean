import EcmaLex.Proofs.Dispatch

/-!
# Lexemes on one line

Numerals, words, regular expressions, operators, punctuation and comments that run to the end of
their line hold no line terminator: `OneLine`. For most of them a class is known that all characters of
the lexeme belong to: `Within`.
-/

namespace EcmaLex

namespace Matcher

/-- Every character of a lexeme belongs to the class. -/
def Within (matcher : Matcher) (p : Char → Bool) : Prop :=
  ∀ ⦃text lexeme rest : Text⦄, matcher text = some (lexeme, rest) → ∀ c ∈ lexeme, p c = true

/-- No lexeme holds a line terminator. -/
def OneLine (matcher : Matcher) : Prop :=
  matcher.Within fun c => !isLineTerminator c

theorem Within.mono {matcher : Matcher} {p q : Char → Bool} (h : matcher.Within p)
    (hpq : ∀ c, p c = true → q c = true) : matcher.Within q := by
  intro text lexeme rest hmatch c hc
  exact hpq c (h hmatch c hc)

variable {p : Char → Bool}

theorem within_extend {read tail : Text} (hread : ∀ c ∈ read, p c = true)
    (htail : ∀ c ∈ tail, p c = true) : ∀ c ∈ read ++ tail, p c = true := by
  intro c hc
  rw [List.mem_append] at hc
  rcases hc with hc | hc
  · exact hread c hc
  · exact htail c hc

theorem within_takeWhile (p : Char → Bool) (text : Text) : ∀ c ∈ text.takeWhile p, p c = true :=
  List.all_eq_true.1 List.all_takeWhile

theorem within_one (p : Char → Bool) : (one p).Within p := by
  intro text lexeme rest h
  cases text with
  | nil => cases h
  | cons c text =>
    simp only [one, Option.ite_none_right_eq_some, Option.some.injEq, Prod.mk.injEq] at h
    obtain ⟨hc, rfl, rfl⟩ := h
    simpa using hc

theorem within_manyOf (p : Char → Bool) : (manyOf p).Within p := by
  intro text lexeme rest h
  simp only [manyOf, Option.ite_none_left_eq_some, Option.some.injEq] at h
  obtain ⟨-, hrun⟩ := h
  obtain ⟨rfl, rfl⟩ := Prod.mk.inj hrun
  exact within_takeWhile p text

theorem within_exactly {spelling : Text} (h : ∀ c ∈ spelling, p c = true) :
    (exactly spelling).Within p := by
  intro text lexeme rest hmatch
  obtain ⟨rfl, -⟩ := exactly_eq_some_iff.1 hmatch
  exact h

theorem within_oneOf {spellings : List Text} (h : ∀ spelling ∈ spellings, ∀ c ∈ spelling, p c = true) :
    (oneOf spellings).Within p := by
  intro text lexeme rest hmatch
  obtain ⟨spelling, hmem, hfound⟩ := List.exists_of_findSome?_eq_some hmatch
  exact within_exactly (h spelling hmem) hfound

theorem Within.orElse {first second : Matcher} (hf : first.Within p) (hs : second.Within p) :
    (first.orElse second).Within p := by
  intro text lexeme rest h
  simp only [Matcher.orElse] at h
  split at h
  · next found he =>
    obtain rfl := Option.some.inj h
    exact hf he
  · exact hs h

theorem Within.andThen {first second : Matcher} (hf : first.Within p) (hs : second.Within p) :
    (first.andThen second).Within p := by
  intro text lexeme rest h
  simp only [Matcher.andThen] at h
  split at h
  · next head tail he =>
    obtain ⟨found, hfound, rfl⟩ := map_extend_eq_some_iff.1 h
    exact within_extend (hf he) (hs hfound)
  · cases h

theorem Within.standalone {matcher : Matcher} (h : matcher.Within p) (goesOn : Char → Bool) :
    (matcher.standalone goesOn).Within p := by
  intro text lexeme rest hmatch
  exact h (standalone_eq_some_iff.1 hmatch).1

theorem oneLine_toLineEnd (opening : Text) : (toLineEnd opening).OneLine := by
  intro text lexeme rest h
  simp only [toLineEnd, Option.ite_none_right_eq_some, Option.some.injEq] at h
  obtain ⟨-, hsplit⟩ := h
  obtain ⟨rfl, rfl⟩ := Prod.mk.inj hsplit
  intro c hc
  have hbreak := within_takeWhile _ _ c hc
  simp only [isLineBreak, Bool.not_eq_true', Bool.or_eq_false_iff] at hbreak ⊢
  exact hbreak.1.1

end Matcher

open Matcher

theorem isLineTerminator_eq_false {c : Char} (h : isNamePart c = true) :
    isLineTerminator c = false := by
  rw [isLineTerminator, Bool.or_eq_false_iff, beq_eq_false_iff_ne, beq_eq_false_iff_ne]
  constructor
  · rintro rfl
    cases h
  · rintro rfl
    cases h

theorem isNamePart_of_isDigit {c : Char} (h : c.isDigit = true) : isNamePart c = true := by
  simp [isNamePart, Char.isAlphanum, h]

theorem isNamePart_of_isAlpha {c : Char} (h : c.isAlpha = true) : isNamePart c = true := by
  simp [isNamePart, Char.isAlphanum, h]

/-- Every digit of a base is a decimal digit or a letter. -/
theorem isNamePart_of_isDigitIn (base : Nat) {c : Char} (h : isDigitIn base c = true) :
    isNamePart c = true := by
  unfold isDigitIn digitValue? at h
  by_cases hdigit : c.isDigit = true
  · exact isNamePart_of_isDigit hdigit
  · refine isNamePart_of_isAlpha (Bool.or_eq_true_iff.2 ?_)
    by_cases hlower : c.isLower = true
    · exact .inr hlower
    · by_cases hupper : c.isUpper = true
      · exact .inl hupper
      · simp [hdigit, hlower, hupper] at h

namespace Numeral

/-- The characters of numerals. -/
def isPart (c : Char) : Bool :=
  isNamePart c || c == '.' || c == '+' || c == '-'

theorem isPart_of_isNamePart {c : Char} (h : isNamePart c = true) : isPart c = true := by
  simp [isPart, h]

theorem isLineTerminator_of_isPart {c : Char} (h : isPart c = true) : isLineTerminator c = false := by
  simp only [isPart, Bool.or_eq_true, beq_iff_eq] at h
  rcases h with ((h | rfl) | rfl) | rfl
  · exact isLineTerminator_eq_false h
  all_goals decide

theorem within_digits : digits.Within isPart :=
  (within_manyOf _).mono fun _ hc => isPart_of_isNamePart (isNamePart_of_isDigit hc)

theorem isPart_of_mark {radix : Radix} {mark : Char} (h : radix.announcedBy mark = true) :
    ∀ c ∈ ['0', mark], isPart c = true := by
  have hmark : isNamePart mark = true := by
    cases radix <;> simp only [Radix.announcedBy, Bool.or_eq_true, beq_iff_eq] at h <;>
      rcases h with rfl | rfl <;> decide
  simp only [List.forall_mem_cons, List.not_mem_nil, false_imp_iff, implies_true, and_true]
  exact ⟨by decide, isPart_of_isNamePart hmark⟩

theorem within_inRadix (radix : Radix) : (inRadix radix).Within isPart := by
  intro text lexeme rest h
  unfold inRadix at h
  split at h
  · obtain ⟨hmark, hmap⟩ := Option.ite_none_right_eq_some.1 h
    obtain ⟨found, hfound, rfl⟩ := map_extend_eq_some_iff.1 hmap
    have hdigits := (within_manyOf (isDigitIn radix.base)).mono
      fun _ hc => isPart_of_isNamePart (isNamePart_of_isDigitIn _ hc)
    exact within_extend (isPart_of_mark hmark) (hdigits hfound)
  · cases h

theorem within_radixMark (radix : Radix) : (radixMark radix).Within isPart := by
  intro text lexeme rest h
  unfold radixMark at h
  split at h
  · obtain ⟨hmark, hfound⟩ := Option.ite_none_right_eq_some.1 h
    obtain ⟨rfl, rfl⟩ := Prod.mk.inj (Option.some.inj hfound)
    exact isPart_of_mark hmark
  · cases h

theorem within_leadingZero : leadingZero.Within isPart := by
  intro text lexeme rest h
  unfold leadingZero at h
  split at h
  · obtain ⟨found, hfound, rfl⟩ := map_extend_eq_some_iff.1 h
    exact within_extend (by decide) (within_digits hfound)
  · cases h

theorem within_wholeFirst : wholeFirst.Within isPart := by
  intro text lexeme rest h
  unfold wholeFirst at h
  split at h
  · next whole tail hdigits =>
    simp only [Option.some.injEq, extend, Prod.mk.injEq] at h
    obtain ⟨rfl, rfl⟩ := h
    have hfraction : ∀ c ∈ tail.takeWhile Char.isDigit, isPart c = true := fun c hc =>
      isPart_of_isNamePart (isNamePart_of_isDigit (within_takeWhile _ _ c hc))
    exact within_extend (within_extend (within_digits hdigits) (by decide)) hfraction
  · exact within_digits h

theorem within_pointFirst : pointFirst.Within isPart := by
  intro text lexeme rest h
  unfold pointFirst at h
  split at h
  · obtain ⟨found, hfound, rfl⟩ := map_extend_eq_some_iff.1 h
    exact within_extend (by decide) (within_digits hfound)
  · cases h

theorem within_mantissa : mantissa.Within isPart :=
  within_wholeFirst.orElse within_pointFirst

theorem within_signedDigits : signedDigits.Within isPart := by
  intro text lexeme rest h
  unfold signedDigits at h
  split at h
  · cases h
  · split at h
    · next c tail hsign =>
      obtain ⟨found, hfound, rfl⟩ := map_extend_eq_some_iff.1 h
      have hread : ∀ d ∈ [c], isPart d = true := by
        rw [Bool.or_eq_true, beq_iff_eq, beq_iff_eq] at hsign
        rcases hsign with rfl | rfl <;> decide
      exact within_extend hread (within_digits hfound)
    · exact within_digits h

theorem within_exponentMark : exponentMark.Within isPart := by
  refine within_mantissa.andThen ((within_one _).mono fun c hc => ?_)
  rw [isExponentMark, Bool.or_eq_true, beq_iff_eq, beq_iff_eq] at hc
  rcases hc with rfl | rfl <;> decide

theorem within_scientific : scientific.Within isPart :=
  within_exponentMark.andThen within_signedDigits

end Numeral

namespace Name

theorem within_wordIn (words : List Text) : (wordIn words).Within isNamePart := by
  intro text lexeme rest h
  simp only [wordIn, Option.ite_none_right_eq_some, Option.some.injEq] at h
  obtain ⟨-, hrun⟩ := h
  obtain ⟨rfl, rfl⟩ := Prod.mk.inj hrun
  exact within_takeWhile _ _

theorem isNamePart_of_escaped {high low c : Char} (h : escaped? high low = some c) :
    isNamePart high = true ∧ isNamePart low = true := by
  have hdigit : ∀ {d value}, hexValue? d = some value → isNamePart d = true := by
    intro d value hvalue
    obtain ⟨hsome, hbelow⟩ := Option.filter_eq_some_iff.1 hvalue
    refine isNamePart_of_isDigitIn 16 ?_
    rw [isDigitIn, hsome]
    exact hbelow
  unfold escaped? at h
  split at h
  · next hhigh hlow => exact ⟨hdigit hhigh, hdigit hlow⟩
  · cases h

/-- The characters of names, those of escapes among them. -/
def isUnitPart (c : Char) : Bool :=
  isNamePart c || c == '\\'

theorem isUnitPart_of_isNamePart {c : Char} (h : isNamePart c = true) : isUnitPart c = true := by
  rw [isUnitPart, h]
  rfl

theorem isLineTerminator_of_isUnitPart {c : Char} (h : isUnitPart c = true) :
    isLineTerminator c = false := by
  rw [isUnitPart, Bool.or_eq_true, beq_iff_eq] at h
  rcases h with h | rfl
  · exact isLineTerminator_eq_false h
  · decide

theorem within_nameUnit {p : Char → Bool} (hp : ∀ c, p c = true → isNamePart c = true) :
    (nameUnit p).Within isUnitPart := by
  intro text lexeme rest h
  rcases cases_of_nameUnit h with ⟨c, rfl, hc⟩ | ⟨high, low, c, rfl, hescaped, -⟩
  · simpa using isUnitPart_of_isNamePart (hp c hc)
  · obtain ⟨hhigh, hlow⟩ := isNamePart_of_escaped hescaped
    simp only [List.forall_mem_cons, List.not_mem_nil, false_imp_iff, implies_true, and_true]
    exact ⟨by decide, by decide, by decide, by decide, isUnitPart_of_isNamePart hhigh,
      isUnitPart_of_isNamePart hlow⟩

theorem within_continuation (text : Text) : ∀ c ∈ (continuation text).1, isUnitPart c = true := by
  fun_induction continuation text with
  | case1 text unit rest h ih => exact within_extend (within_nameUnit (fun _ hc => hc) h) ih
  | case2 => exact fun _ hc => absurd hc List.not_mem_nil

theorem within_identifier : identifier.Within isUnitPart := by
  intro text lexeme rest h
  unfold identifier at h
  split at h
  · next unit tail hunit =>
    simp only [Option.some.injEq, extend, Prod.mk.injEq] at h
    obtain ⟨rfl, rfl⟩ := h
    have hstart := within_nameUnit (fun _ => isNamePart_of_isNameStart) hunit
    exact within_extend hstart (within_continuation tail)
  · cases h

end Name

namespace RegExp

theorem oneLine_escaped {c : Char} (h : ¬ isLineBreak c = true) :
    ∀ d ∈ ['\\', c], (!isLineTerminator d) = true := by
  simp only [isLineBreak, Bool.or_eq_true, not_or, Bool.not_eq_true] at h
  simp only [List.forall_mem_cons, List.not_mem_nil, false_imp_iff, implies_true, and_true,
    Bool.not_eq_true']
  exact ⟨by decide, h.1.1⟩

theorem oneLine_classBody : classBody.OneLine := by
  intro text lexeme rest h
  fun_induction classBody text generalizing lexeme with
  | case1 => cases h
  | case2 => cases h
  | case3 => cases h
  | case4 c tail hline ih =>
    obtain ⟨found, hfound, rfl⟩ := map_extend_eq_some_iff.1 h
    exact within_extend (oneLine_escaped hline) (ih hfound)
  | case5 =>
    obtain ⟨rfl, -⟩ := Prod.mk.inj (Option.some.inj h)
    decide
  | case6 => cases h
  | case7 c tail _ _ _ hline ih =>
    obtain ⟨found, hfound, rfl⟩ := map_extend_eq_some_iff.1 h
    exact within_extend (by simpa using hline) (ih hfound)

theorem oneLine_body : OneLine body := by
  intro text lexeme rest h
  fun_induction body text generalizing lexeme with
  | case1 => cases h
  | case2 => cases h
  | case3 => cases h
  | case4 c tail hline ih =>
    obtain ⟨found, hfound, rfl⟩ := map_extend_eq_some_iff.1 h
    exact within_extend (oneLine_escaped hline) (ih hfound)
  | case5 tail members after hclass ih =>
    obtain ⟨found, hfound, rfl⟩ := map_extend_eq_some_iff.1 h
    have hopen : ∀ c ∈ ['['], (!isLineTerminator c) = true := by decide
    exact within_extend (within_extend hopen (oneLine_classBody hclass)) (ih hfound)
  | case6 tail _ ih =>
    obtain ⟨found, hfound, rfl⟩ := map_extend_eq_some_iff.1 h
    exact within_extend (by decide) (ih hfound)
  | case7 =>
    obtain ⟨rfl, -⟩ := Prod.mk.inj (Option.some.inj h)
    decide
  | case8 => cases h
  | case9 c tail _ _ _ _ hline ih =>
    obtain ⟨found, hfound, rfl⟩ := map_extend_eq_some_iff.1 h
    exact within_extend (by simpa using hline) (ih hfound)

theorem oneLine_regExp : regExp.OneLine := by
  intro text lexeme rest h
  unfold regExp at h
  split at h
  · cases h
  · split at h
    · next body after hbody =>
      simp only [Option.some.injEq, extend, Prod.mk.injEq] at h
      obtain ⟨rfl, rfl⟩ := h
      have hopen : ∀ c ∈ ['/'], (!isLineTerminator c) = true := by decide
      have hread := within_extend hopen (oneLine_body hbody)
      have hflags : ∀ c ∈ after.takeWhile Char.isAlpha, (!isLineTerminator c) = true := by
        intro c hc
        rw [isLineTerminator_eq_false (isNamePart_of_isAlpha (within_takeWhile _ _ c hc))]
        rfl
      exact within_extend hread hflags
    · cases h
  · cases h

end RegExp

theorem within_of_mem_numeralRules : ∀ rule ∈ numeralRules, rule.matcher.Within Numeral.isPart := by
  have hradix := Numeral.within_inRadix
  have hmark := Numeral.within_radixMark
  have hlow := (hradix .binary).orElse (hradix .octal)
  have hhigh := Numeral.within_leadingZero.orElse (hradix .hexadecimal)
  have hone : ∀ p : Char → Bool, (∀ c, p c = true → isNamePart c = true) →
      (one p).Within Numeral.isPart :=
    fun p hp => (within_one p).mono fun c hc => Numeral.isPart_of_isNamePart (hp c hc)
  have hpart := hone isNamePart fun _ => id
  have hstart := hone isNameStart fun _ => isNamePart_of_isNameStart
  have hdigit := hone Char.isDigit fun _ => isNamePart_of_isDigit
  simp only [numeralRules, List.forall_mem_cons, List.not_mem_nil, false_imp_iff, implies_true,
    and_true]
  exact ⟨(hradix _).standalone _, (hradix _).standalone _, Numeral.within_leadingZero.standalone _,
    (hradix _).standalone _, hlow.andThen hstart, hhigh.andThen hstart, hlow.andThen hdigit,
    hhigh.andThen hdigit, hmark _, hmark _, hmark _, Numeral.within_scientific.standalone _,
    Numeral.within_scientific.andThen hpart, Numeral.within_exponentMark,
    Numeral.within_mantissa.standalone _, Numeral.within_mantissa.andThen hpart⟩

theorem within_of_mem_wordRules : ∀ rule ∈ wordRules, rule.matcher.Within Name.isUnitPart := by
  have hword : ∀ words, (Name.wordIn words).Within Name.isUnitPart := fun words =>
    (Name.within_wordIn words).mono fun _ => Name.isUnitPart_of_isNamePart
  simp only [wordRules, List.forall_mem_cons, List.not_mem_nil, false_imp_iff, implies_true,
    and_true]
  exact ⟨hword _, hword _, hword _, Name.within_identifier⟩

theorem oneLine_of_mem_wordRules : ∀ rule ∈ wordRules, rule.matcher.OneLine := by
  refine fun rule hmem => (within_of_mem_wordRules rule hmem).mono fun c hc => ?_
  rw [Name.isLineTerminator_of_isUnitPart hc]
  rfl

theorem oneLine_of_mem_regExpRules : ∀ rule ∈ regExpRules, rule.matcher.OneLine := by
  simp only [regExpRules, List.forall_mem_cons, List.not_mem_nil, false_imp_iff, implies_true,
    and_true]
  exact ⟨RegExp.oneLine_regExp, oneLine_toLineEnd _⟩

theorem within_of_mem_operatorRules : ∀ rule ∈ operatorRules, rule.matcher.Within opensOperator := by
  simp only [operatorRules, List.forall_mem_cons, List.not_mem_nil, false_imp_iff, implies_true,
    and_true]
  exact ⟨within_oneOf (by decide +kernel), within_oneOf (by decide +kernel),
    within_oneOf (by decide +kernel)⟩

theorem within_of_mem_punctuationRules :
    ∀ rule ∈ punctuationRules, rule.matcher.Within isPunctuation := by
  simp only [punctuationRules, List.forall_mem_cons, List.not_mem_nil, false_imp_iff, implies_true,
    and_true]
  refine ⟨?_, ?_, ?_, ?_, ?_, ?_, ?_, ?_, ?_, ?_⟩ <;> exact within_exactly (by decide)

end EcmaLex
