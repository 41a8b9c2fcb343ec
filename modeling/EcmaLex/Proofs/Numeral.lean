import EcmaLex.Proofs.Dispatch

/-!
# What the rules make of a numeral

The shape of a text tells which notation its numeral has: a zero and the letter of a base, a zero and
more digits, or decimal notation. Each notation is read as far as it goes, and `judge` says what is made
of the lexeme when nothing is missing in it: a literal, unless a name or a numeral follows directly. The
rules for numerals answer wherever decimal notation begins: `firstOf_numeralRules_eq_none_iff`.
-/

namespace EcmaLex

open Matcher Numeral

/-- The edition that introduced numerals with this base announced. -/
def Radix.since : Radix → Edition
  | .binary | .octal => .es2015
  | .hexadecimal => .es5

theorem isNamePart_eq (c : Char) : isNamePart c = (isNameStart c || c.isDigit) := by
  simp only [isNamePart, isNameStart, Char.isAlphanum]
  cases c.isAlpha <;> cases c.isDigit <;> simp

/-- A letter that announces a base is no digit, and announces no other base. -/
theorem Radix.of_announcedBy {radix : Radix} {mark : Char} (h : radix.announcedBy mark = true) :
    mark.isDigit = false ∧ ∀ other ≠ radix, Radix.announcedBy other mark = false := by
  cases radix <;> simp only [announcedBy, Bool.or_eq_true, beq_iff_eq] at h <;>
    rcases h with rfl | rfl <;>
    exact ⟨by decide, fun other hne => by cases other <;> first | rfl | exact absurd rfl hne⟩

namespace Numeral

/-- What is made of a complete numeral. -/
def judge (lexeme : Text) : Text → Selection
  | [] => { action := .emit .literal, lexeme, rest := [] }
  | c :: rest =>
    if isNameStart c then
      { action := .fail (.malformedNumeral .identifierAfter), lexeme := lexeme ++ [c], rest }
    else if c.isDigit then
      { action := .fail (.malformedNumeral .digitAfter), lexeme := lexeme ++ [c], rest }
    else { action := .emit .literal, lexeme, rest := c :: rest }

/-- What is made of decimal notation, read up to where an exponent can begin. -/
def judgeDecimal (mantissa : Text) : Text → Selection
  | [] => judge mantissa []
  | c :: rest =>
    if isExponentMark c then
      match signedDigits rest with
      | some (exponent, after) => judge (mantissa ++ c :: exponent) after
      | none =>
        { action := .fail (.malformedNumeral .missingExponent), lexeme := mantissa ++ [c], rest }
    else judge mantissa (c :: rest)

/-- A base that the edition knows is announced at the start of the text. -/
def Announces (edition : Edition) (text : Text) : Prop :=
  ∃ radix : Radix, edition.includes radix.since = true ∧
    ∃ mark rest, text = '0' :: mark :: rest ∧ radix.announcedBy mark = true

theorem judge_eq_emit_iff {kind : TokenKind} {lexeme found after rest : Text} :
    judge lexeme after = { action := .emit kind, lexeme := found, rest } ↔
      kind = .literal ∧ found = lexeme ∧ rest = after ∧ after.head?.any isNamePart = false := by
  cases after with
  | nil => simp [judge, eq_comm]
  | cons c after =>
    simp only [judge, List.head?_cons, Option.any_some, isNamePart_eq]
    cases isNameStart c <;> cases c.isDigit <;> simp [eq_comm]

theorem judgeDecimal_of_head {mantissa after : Text} (h : after.head?.any isExponentMark = false) :
    judgeDecimal mantissa after = judge mantissa after := by
  cases after with
  | nil => rfl
  | cons c after =>
    have hc : isExponentMark c = false := h
    simp [judgeDecimal, hc]

theorem isNamePart_of_isExponentMark {c : Char} (h : isExponentMark c = true) :
    isNamePart c = true := by
  rw [isExponentMark, Bool.or_eq_true, beq_iff_eq, beq_iff_eq] at h
  rcases h with rfl | rfl <;> decide

theorem head?_of_digits {text lexeme rest : Text} (h : digits text = some (lexeme, rest)) :
    rest.head?.any Char.isDigit = false := by
  obtain ⟨-, hrun⟩ := Option.ite_none_left_eq_some.1 h
  have hstop := Text.head?_run Char.isDigit text
  rwa [Option.some.inj hrun] at hstop

theorem head?_of_signedDigits {text lexeme rest : Text}
    (h : signedDigits text = some (lexeme, rest)) : rest.head?.any Char.isDigit = false := by
  unfold signedDigits at h
  split at h
  · cases h
  · split at h
    · obtain ⟨found, hfound, -⟩ := map_extend_eq_some_iff.1 h
      exact head?_of_digits hfound
    · exact head?_of_digits h

theorem head?_of_mantissa {text lexeme rest : Text} (h : mantissa text = some (lexeme, rest)) :
    rest.head?.any Char.isDigit = false := by
  rw [mantissa, Matcher.orElse] at h
  split at h
  · next found hwhole =>
    rw [h] at hwhole
    unfold wholeFirst at hwhole
    split at hwhole
    · next whole tail hdigits =>
      simp only [Option.some.injEq, extend, Prod.mk.injEq] at hwhole
      rw [← hwhole.2]
      exact Text.head?_run _ _
    · exact head?_of_digits hwhole
  · unfold pointFirst at h
    split at h
    · obtain ⟨found, hfound, -⟩ := map_extend_eq_some_iff.1 h
      exact head?_of_digits hfound
    · cases h

/-- The rules for numerals that begin with a zero, where one of their matchers finds something and the
others find nothing. -/
theorem firstOf_abutted {edition : Edition} {context : Context} {text lexeme after : Text}
    (hes5 : edition.includes .es5 = true)
    (hfound :
      edition.includes .es2015 = true ∧ inRadix .binary text = some (lexeme, after) ∧
        inRadix .octal text = none ∧ leadingZero text = none ∧ inRadix .hexadecimal text = none ∨
      edition.includes .es2015 = true ∧ inRadix .binary text = none ∧
        inRadix .octal text = some (lexeme, after) ∧ leadingZero text = none ∧
        inRadix .hexadecimal text = none ∨
      inRadix .binary text = none ∧ inRadix .octal text = none ∧
        leadingZero text = some (lexeme, after) ∧ inRadix .hexadecimal text = none ∨
      inRadix .binary text = none ∧ inRadix .octal text = none ∧ leadingZero text = none ∧
        inRadix .hexadecimal text = some (lexeme, after)) :
    firstOf numeralRules edition context text = some (judge lexeme after) := by
  cases after with
  | nil =>
    rcases hfound with ⟨hsince, hb, ho, hz, hx⟩ | ⟨hsince, hb, ho, hz, hx⟩ | ⟨hb, ho, hz, hx⟩ |
      ⟨hb, ho, hz, hx⟩ <;>
    simp [firstOf, numeralRules, Rule.find?, Rule.applies, Matcher.standalone, judge, *]
  | cons c after =>
    rcases hfound with ⟨hsince, hb, ho, hz, hx⟩ | ⟨hsince, hb, ho, hz, hx⟩ | ⟨hb, ho, hz, hx⟩ |
      ⟨hb, ho, hz, hx⟩ <;>
    cases hstart : isNameStart c <;> cases hdigit : c.isDigit <;>
    simp [firstOf, numeralRules, Rule.find?, Rule.applies, Matcher.standalone, Matcher.andThen,
      Matcher.orElse, one, judge, isNamePart_eq, *]

/-- A rule for what goes on with a name part, right after the rule for what stands alone. -/
theorem firstOf_abutted_decimal {edition : Edition} {context : Context} {matcher : Matcher}
    {text lexeme after : Text} (later : List Rule) (hes5 : edition.includes .es5 = true)
    (hmatch : matcher text = some (lexeme, after)) (hdigit : after.head?.any Char.isDigit = false) :
    firstOf ({ matcher := matcher.standalone isNamePart, action := .emit .literal } ::
        { matcher := matcher.andThen (one isNamePart)
          action := .fail (.malformedNumeral .identifierAfter) } :: later) edition context text =
      some (judge lexeme after) := by
  cases after with
  | nil => simp [firstOf, Rule.find?, Rule.applies, Matcher.standalone, judge, *]
  | cons c after =>
    have hc : c.isDigit = false := hdigit
    cases hstart : isNameStart c <;>
      simp [firstOf, Rule.find?, Rule.applies, Matcher.standalone, Matcher.andThen, one, judge,
        isNamePart_eq, *]

/-- Where nothing announces another notation, the rules for decimal notation answer. -/
theorem firstOf_decimal {edition : Edition} {context : Context} {text : Text}
    (hes5 : edition.includes .es5 = true) (hannounces : ¬ Announces edition text)
    (hzero : leadingZero text = none) :
    firstOf numeralRules edition context text =
      (mantissa text).map fun found => judgeDecimal found.1 found.2 := by
  have hradix : ∀ radix : Radix, edition.includes radix.since = true →
      inRadix radix text = none ∧ radixMark radix text = none := by
    intro radix hsince
    refine inRadix_eq_none fun mark rest htext => ?_
    rw [Bool.eq_false_iff]
    exact fun hmark => hannounces ⟨radix, hsince, mark, rest, htext, hmark⟩
  have hlow := fun h => And.intro (hradix .binary h) (hradix .octal h)
  obtain ⟨hhigh, hmark⟩ := hradix .hexadecimal hes5
  have hfirst : firstOf (numeralRules.take 11) edition context text = none := by
    rw [firstOf_eq_none_iff]
    simp only [numeralRules, Rule.applies, Bool.and_true, List.take_succ_cons, List.take_zero,
      List.forall_mem_cons, List.not_mem_nil, false_imp_iff, implies_true, and_true,
      Matcher.standalone, Matcher.andThen, Matcher.orElse, hzero, hhigh, hmark, true_and]
    refine ⟨fun h => ?_, fun h => ?_, fun h => ?_, fun h => ?_, fun h => (hlow h).1.2,
      fun h => (hlow h).2.2⟩
    · simp only [(hlow h).1.1]
    · simp only [(hlow h).2.1]
    · simp only [(hlow h).1.1, (hlow h).2.1]
    · simp only [(hlow h).1.1, (hlow h).2.1]
  rw [← List.take_append_drop 11 numeralRules, firstOf_append, hfirst, Option.none_or]
  cases hmantissa : mantissa text with
  | none =>
    rw [Option.map_none, firstOf_eq_none_iff]
    simp only [numeralRules, List.drop_succ_cons, List.drop_zero, List.forall_mem_cons,
      List.not_mem_nil, false_imp_iff, implies_true, and_true, Matcher.standalone, Matcher.andThen,
      scientific, exponentMark, hmantissa]
  | some found =>
    obtain ⟨lexeme, after⟩ := found
    have hplain : exponentMark text = none →
        firstOf (numeralRules.drop 11) edition context text = some (judge lexeme after) := by
      intro hnone
      have hmantissaRules := @firstOf_abutted_decimal edition context _ _ _ _ [] hes5 hmantissa
        (head?_of_mantissa hmantissa)
      rw [← hmantissaRules]
      simp [firstOf, numeralRules, Rule.find?, Matcher.standalone, Matcher.andThen, scientific, hnone]
    cases after with
    | nil => exact hplain (by simp [exponentMark, Matcher.andThen, hmantissa, one])
    | cons c rest =>
      cases hc : isExponentMark c with
      | false =>
        rw [Option.map_some, @judgeDecimal_of_head lexeme (c :: rest) hc]
        exact hplain (by simp [exponentMark, Matcher.andThen, hmantissa, one, hc])
      | true =>
        have hexponent : exponentMark text = some (lexeme ++ [c], rest) := by
          simp [exponentMark, Matcher.andThen, hmantissa, one, hc]
        cases hsigned : signedDigits rest with
        | none =>
          simp [firstOf, numeralRules, Rule.find?, Rule.applies, Matcher.standalone,
            Matcher.andThen, scientific, judgeDecimal, *]
        | some found =>
          obtain ⟨exponent, after⟩ := found
          have hscientific : scientific text = some (lexeme ++ c :: exponent, after) := by
            simp [scientific, Matcher.andThen, hexponent, hsigned]
          have hjudge : judgeDecimal lexeme (c :: rest) = judge (lexeme ++ c :: exponent) after := by
            simp [judgeDecimal, hc, hsigned]
          rw [Option.map_some, hjudge]
          exact firstOf_abutted_decimal _ hes5 hscientific (head?_of_signedDigits hsigned)

theorem firstOf_leadingZero {edition : Edition} {context : Context} {text lexeme after : Text}
    (hes5 : edition.includes .es5 = true) (h : leadingZero text = some (lexeme, after)) :
    firstOf numeralRules edition context text = some (judge lexeme after) := by
  have hradix : ∀ radix : Radix, inRadix radix text = none := by
    intro radix
    refine (inRadix_eq_none fun mark rest htext => ?_).1
    rw [Bool.eq_false_iff]
    intro hmark
    obtain ⟨tail, hdigits, -⟩ := map_extend_eq_some_iff.1 (htext ▸ h)
    have hnone : digits (mark :: rest) = none :=
      manyOf_eq_none_iff.2 (Radix.of_announcedBy hmark).1
    rw [hnone] at hdigits
    cases hdigits
  exact firstOf_abutted hes5
    (.inr (.inr (.inl ⟨hradix .binary, hradix .octal, h, hradix .hexadecimal⟩)))

/-- What is made of a numeral with an announced base, from the text after the letter on. -/
def judgeAnnounced (radix : Radix) (mark : Char) (rest : Text) : Selection :=
  match manyOf (isDigitIn radix.base) rest with
  | some (found, after) => judge ('0' :: mark :: found) after
  | none =>
    { action := .fail (.malformedNumeral (.missingDigits radix)), lexeme := ['0', mark], rest }

theorem firstOf_announced {edition : Edition} {context : Context} {radix : Radix} {mark : Char}
    (hes5 : edition.includes .es5 = true) (hsince : edition.includes radix.since = true)
    (hmark : radix.announcedBy mark = true) (rest : Text) :
    firstOf numeralRules edition context ('0' :: mark :: rest) =
      some (judgeAnnounced radix mark rest) := by
  obtain ⟨hdigit, hothers⟩ := Radix.of_announcedBy hmark
  have hzero : leadingZero ('0' :: mark :: rest) = none := by
    have hnone : digits (mark :: rest) = none := manyOf_eq_none_iff.2 hdigit
    simp [leadingZero, hnone]
  have hother : ∀ other ≠ radix, inRadix other ('0' :: mark :: rest) = none ∧
      radixMark other ('0' :: mark :: rest) = none := by
    intro other hne
    refine inRadix_eq_none fun found tail heq => ?_
    obtain ⟨-, heq⟩ := List.cons.inj heq
    rw [← (List.cons.inj heq).1]
    exact hothers other hne
  have hself : inRadix radix ('0' :: mark :: rest) =
      (manyOf (isDigitIn radix.base) rest).map (extend ['0', mark]) := if_pos hmark
  unfold judgeAnnounced
  cases hfound : manyOf (isDigitIn radix.base) rest with
  | some found =>
    rw [hfound] at hself
    apply firstOf_abutted hes5
    cases radix with
    | binary =>
      exact .inl ⟨hsince, hself, (hother .octal (by decide)).1, hzero,
        (hother .hexadecimal (by decide)).1⟩
    | octal =>
      exact .inr (.inl ⟨hsince, (hother .binary (by decide)).1, hself, hzero,
        (hother .hexadecimal (by decide)).1⟩)
    | hexadecimal =>
      exact .inr (.inr (.inr ⟨(hother .binary (by decide)).1, (hother .octal (by decide)).1, hzero,
        hself⟩))
  | none =>
    rw [hfound, Option.map_none] at hself
    have hmissing : radixMark radix ('0' :: mark :: rest) = some (['0', mark], rest) := if_pos hmark
    cases radix with
    | binary =>
      have hsince' : edition.includes .es2015 = true := hsince
      have hoctal := hother .octal (by decide)
      have hhexadecimal := hother .hexadecimal (by decide)
      simp [firstOf, numeralRules, Rule.find?, Rule.applies, Matcher.standalone, Matcher.andThen,
        Matcher.orElse, *]
    | octal =>
      have hsince' : edition.includes .es2015 = true := hsince
      have hbinary := hother .binary (by decide)
      have hhexadecimal := hother .hexadecimal (by decide)
      simp [firstOf, numeralRules, Rule.find?, Rule.applies, Matcher.standalone, Matcher.andThen,
        Matcher.orElse, *]
    | hexadecimal =>
      have hbinary := hother .binary (by decide)
      have hoctal := hother .octal (by decide)
      simp [firstOf, numeralRules, Rule.find?, Rule.applies, Matcher.standalone, Matcher.andThen,
        Matcher.orElse, *]

theorem mantissa_ne_none {text : Text} (h : digits text ≠ none) : mantissa text ≠ none := by
  obtain ⟨⟨whole, rest⟩, hdigits⟩ := Option.ne_none_iff_exists'.1 h
  by_cases hpoint : rest.head? = some '.'
  · obtain ⟨tail, rfl⟩ := List.head?_eq_some_iff.1 hpoint
    rw [mantissa_fraction hdigits]
    exact Option.some_ne_none _
  · rw [mantissa_whole hdigits hpoint]
    exact Option.some_ne_none _

/-- The rules for numerals answer, with a literal or a fault, where decimal notation begins. -/
theorem firstOf_numeralRules_eq_none_iff {edition : Edition} {context : Context} {text : Text}
    (hes5 : edition.includes .es5 = true) :
    firstOf numeralRules edition context text = none ↔ mantissa text = none := by
  have hzero : ∀ rest, mantissa ('0' :: rest) ≠ none := fun rest =>
    mantissa_ne_none fun hnone => (by cases manyOf_eq_none_iff.1 hnone)
  by_cases hannounces : Announces edition text
  · obtain ⟨radix, hsince, mark, rest, rfl, hmark⟩ := hannounces
    rw [firstOf_announced hes5 hsince hmark]
    exact iff_of_false (Option.some_ne_none _) (hzero _)
  · cases hlead : leadingZero text with
    | none => rw [firstOf_decimal hes5 hannounces hlead, Option.map_eq_none_iff]
    | some found =>
      obtain ⟨lexeme, after⟩ := found
      rw [firstOf_leadingZero hes5 hlead]
      refine iff_of_false (Option.some_ne_none _) ?_
      unfold leadingZero at hlead
      split at hlead
      · exact hzero _
      · cases hlead

/-- What is made of the numeral at the start of a text, notation by notation. -/
inductive Reads (edition : Edition) : Text → Selection → Prop where
  | announced {radix : Radix} {mark : Char} (rest : Text)
      (hsince : edition.includes radix.since = true) (hmark : radix.announcedBy mark = true) :
      Reads edition ('0' :: mark :: rest) (judgeAnnounced radix mark rest)
  | leadingZero {text lexeme after : Text} (h : leadingZero text = some (lexeme, after)) :
      Reads edition text (judge lexeme after)
  | decimal {text lexeme after : Text} (hannounces : ¬ Announces edition text)
      (hzero : Numeral.leadingZero text = none) (h : mantissa text = some (lexeme, after)) :
      Reads edition text (judgeDecimal lexeme after)

theorem Reads.firstOf_eq {edition : Edition} {context : Context} {text : Text} {found : Selection}
    (hes5 : edition.includes .es5 = true) (h : Reads edition text found) :
    firstOf numeralRules edition context text = some found := by
  cases h with
  | announced rest hsince hmark => exact firstOf_announced hes5 hsince hmark rest
  | leadingZero h => exact firstOf_leadingZero hes5 h
  | decimal hannounces hzero h => rw [firstOf_decimal hes5 hannounces hzero, h, Option.map_some]

/-- Where decimal notation begins, one of the notations is read. -/
theorem exists_reads {edition : Edition} {text : Text} (h : mantissa text ≠ none) :
    ∃ found, Reads edition text found := by
  by_cases hannounces : Announces edition text
  · obtain ⟨radix, hsince, mark, rest, rfl, hmark⟩ := hannounces
    exact ⟨_, .announced rest hsince hmark⟩
  · cases hzero : leadingZero text with
    | some found => exact ⟨_, .leadingZero hzero⟩
    | none =>
      obtain ⟨found, hmantissa⟩ := Option.ne_none_iff_exists'.1 h
      exact ⟨_, .decimal hannounces hzero hmantissa⟩

end Numeral

end EcmaLex
