import EcmaLex.Proofs.Diagnosis
import EcmaLex.Proofs.Form

/-!
# The notations of numerals

A numeral is written in decimal notation, or begins with a zero that announces a base or is followed by
more digits. `Numeral.Written` says so with prefixes of the text alone: each part of a numeral is the
longest piece of its form that stands there. The rules for numerals, which are tried one after the other
on notations that overlap, together select exactly this: `numerals_written`.
-/

namespace EcmaLex

open Matcher

namespace Numeral

/-- Decimal notation without an exponent. -/
inductive Decimal : Text → Prop where
  | whole {digits : Text} (h : Text.IsRun Char.isDigit digits) : Decimal digits
  | fraction {whole fraction : Text} (hwhole : Text.IsRun Char.isDigit whole)
      (hfraction : ∀ c ∈ fraction, c.isDigit = true) : Decimal (whole ++ '.' :: fraction)
  | point {fraction : Text} (h : Text.IsRun Char.isDigit fraction) : Decimal ('.' :: fraction)

/-- What stands after the letter of an exponent. -/
inductive Exponent : Text → Prop where
  | plain {digits : Text} (h : Text.IsRun Char.isDigit digits) : Exponent digits
  | signed {sign : Char} {digits : Text} (hsign : sign = '+' ∨ sign = '-')
      (h : Text.IsRun Char.isDigit digits) : Exponent (sign :: digits)

/-- Neither a base that the edition knows nor more digits after a zero begin the text. -/
structure BeginsDecimal (edition : Edition) (text : Text) : Prop where
  not_announces : ¬ Announces edition text
  not_leadingZero : ∀ c rest, text = '0' :: c :: rest → c.isDigit = false

/-- What is to be made of the numeral at the start of a text. -/
inductive Written (edition : Edition) : Text → Selection → Prop where
  /-- A base is announced, and digits of it follow. -/
  | announced {radix : Radix} {mark : Char} {rest digits after : Text}
      (hsince : edition.includes radix.since = true) (hmark : radix.announcedBy mark = true)
      (hdigits : rest.Longest (Text.IsRun (isDigitIn radix.base)) digits after) :
      Written edition ('0' :: mark :: rest) (judge ('0' :: mark :: digits) after)
  /-- A base is announced, and no digit of it follows. -/
  | missingDigits {radix : Radix} {mark : Char} {rest : Text}
      (hsince : edition.includes radix.since = true) (hmark : radix.announcedBy mark = true)
      (hnone : rest.head?.any (isDigitIn radix.base) = false) :
      Written edition ('0' :: mark :: rest)
        { action := .fail (.malformedNumeral (.missingDigits radix)), lexeme := ['0', mark], rest }
  /-- More digits follow a zero. -/
  | leadingZero {rest digits after : Text}
      (hdigits : rest.Longest (Text.IsRun Char.isDigit) digits after) :
      Written edition ('0' :: rest) (judge ('0' :: digits) after)
  /-- Decimal notation, and no letter of an exponent after it. -/
  | decimal {text mantissa after : Text} (hbegins : BeginsDecimal edition text)
      (hmantissa : text.Longest Decimal mantissa after)
      (hmark : after.head?.any isExponentMark = false) :
      Written edition text (judge mantissa after)
  /-- Decimal notation with an exponent. -/
  | scientific {text mantissa rest exponent after : Text} {mark : Char}
      (hbegins : BeginsDecimal edition text)
      (hmantissa : text.Longest Decimal mantissa (mark :: rest)) (hmark : isExponentMark mark = true)
      (hexponent : rest.Longest Exponent exponent after) :
      Written edition text (judge (mantissa ++ mark :: exponent) after)
  /-- Decimal notation and the letter of an exponent, without an exponent after it. -/
  | missingExponent {text mantissa rest : Text} {mark : Char} (hbegins : BeginsDecimal edition text)
      (hmantissa : text.Longest Decimal mantissa (mark :: rest)) (hmark : isExponentMark mark = true)
      (hnone : ∀ exponent, Exponent exponent → ¬ exponent <+: rest) :
      Written edition text
        { action := .fail (.malformedNumeral .missingExponent), lexeme := mantissa ++ [mark], rest }

theorem munches_digits : digits.Munches (Text.IsRun Char.isDigit) :=
  munches_manyOf Char.isDigit

/-- Of two ways to read digits up to a point, both read the same. -/
theorem digits_of_fraction {whole fraction rest : Text} (h : Text.IsRun Char.isDigit whole) :
    digits (whole ++ '.' :: fraction ++ rest) = some (whole, '.' :: (fraction ++ rest)) := by
  rw [List.append_assoc, List.cons_append, digits, manyOf_eq_some_iff, Text.run_eq_iff]
  exact ⟨h.ne_nil, h.all, rfl⟩

/-- The pieces in decimal notation at the start of a text that begins with digits. -/
theorem length_le_of_digits {text whole after other : Text}
    (hdigits : digits text = some (whole, after)) (hother : Decimal other) (hbegins : other <+: text) :
    other.length ≤ whole.length ∨
      ∃ fraction tail, after = '.' :: tail ∧ fraction <+: tail ∧
        (∀ c ∈ fraction, c.isDigit = true) ∧ other = whole ++ '.' :: fraction := by
  have hlongest := munches_digits.longest hdigits
  cases hother with
  | whole h => exact .inl (hlongest.length_le _ h hbegins)
  | fraction hwhole hfraction =>
    obtain ⟨rest, rfl⟩ := hbegins
    rw [digits_of_fraction hwhole, Option.some.injEq, Prod.mk.injEq] at hdigits
    obtain ⟨rfl, rfl⟩ := hdigits
    exact .inr ⟨_, _, rfl, List.prefix_append _ _, hfraction, rfl⟩
  | point h =>
    have hnone : digits text = none := by
      obtain ⟨rest, rfl⟩ := hbegins
      exact manyOf_eq_none_iff.2 rfl
    rw [hnone] at hdigits
    cases hdigits

/-- Where no digit stands at the start of a text, decimal notation begins with a point. -/
theorem point_of_decimal {text other : Text} (hdigits : digits text = none) (hother : Decimal other)
    (hbegins : other <+: text) :
    ∃ fraction tail, text = '.' :: tail ∧ other = '.' :: fraction ∧ fraction <+: tail ∧
      Text.IsRun Char.isDigit fraction := by
  have hnothing := munches_digits.nothing hdigits
  cases hother with
  | whole h => exact absurd hbegins (hnothing other h)
  | fraction hwhole _ => exact absurd ((List.prefix_append _ _).trans hbegins) (hnothing _ hwhole)
  | @point fraction h =>
    obtain ⟨rest, rfl⟩ := hbegins
    exact ⟨fraction, fraction ++ rest, rfl, rfl, List.prefix_append _ _, h⟩

theorem longest_fraction {text whole tail : Text} (h : digits text = some (whole, '.' :: tail)) :
    text.Longest Decimal (whole ++ '.' :: tail.takeWhile Char.isDigit)
      (tail.dropWhile Char.isDigit) := by
  have hlongest := munches_digits.longest h
  refine ⟨.fraction hlongest.holds (within_takeWhile _ _), ?_, ?_⟩
  · rw [List.append_assoc, List.cons_append, List.takeWhile_append_dropWhile, hlongest.append_eq]
  · intro other hother hbegins
    rcases length_le_of_digits h hother hbegins with hle | ⟨fraction, _, htail, hfraction, hall, rfl⟩
    · rw [List.length_append]
      omega
    · obtain rfl := (List.cons.inj htail).2
      have hle := Text.length_le_takeWhile hall hfraction
      simp only [List.length_append, List.length_cons]
      omega

theorem longest_whole {text whole after : Text} (h : digits text = some (whole, after))
    (hpoint : after.head? ≠ some '.') : text.Longest Decimal whole after := by
  have hlongest := munches_digits.longest h
  refine ⟨.whole hlongest.holds, hlongest.append_eq, fun other hother hbegins => ?_⟩
  rcases length_le_of_digits h hother hbegins with hle | ⟨_, _, rfl, -⟩
  · exact hle
  · exact absurd rfl hpoint

theorem longest_point {tail fraction after : Text} (h : digits tail = some (fraction, after)) :
    Text.Longest Decimal ('.' :: tail) ('.' :: fraction) after := by
  have hlongest := munches_digits.longest h
  have hnone : digits ('.' :: tail) = none := manyOf_eq_none_iff.2 rfl
  refine ⟨.point hlongest.holds, by rw [List.cons_append, hlongest.append_eq], ?_⟩
  intro other hother hbegins
  obtain ⟨piece, _, htail, rfl, hpiece, hrun⟩ := point_of_decimal hnone hother hbegins
  obtain rfl := (List.cons.inj htail).2
  exact Nat.succ_le_succ (hlongest.length_le piece hrun hpiece)

theorem munches_mantissa : mantissa.Munches Decimal := by
  constructor
  · intro text lexeme rest h
    cases hdigits : digits text with
    | some found =>
      obtain ⟨whole, after⟩ := found
      by_cases hpoint : after.head? = some '.'
      · obtain ⟨tail, rfl⟩ := List.head?_eq_some_iff.1 hpoint
        rw [mantissa_fraction hdigits, Option.some.injEq, Text.run, extend_mk, Prod.mk.injEq,
          List.append_assoc, List.singleton_append] at h
        obtain ⟨rfl, rfl⟩ := h
        exact longest_fraction hdigits
      · rw [mantissa_whole hdigits hpoint, Option.some.injEq, Prod.mk.injEq] at h
        obtain ⟨rfl, rfl⟩ := h
        exact longest_whole hdigits hpoint
    | none =>
      by_cases hpoint : text.head? = some '.'
      · obtain ⟨tail, rfl⟩ := List.head?_eq_some_iff.1 hpoint
        rw [mantissa_point] at h
        obtain ⟨fraction, hfraction, rfl⟩ := map_extend_eq_some_iff.1 h
        exact longest_point hfraction
      · rw [mantissa_eq_none hdigits hpoint] at h
        cases h
  · intro text h lexeme hform hbegins
    have hdigits : digits text = none := by
      by_contra hsome
      exact mantissa_ne_none hsome h
    obtain ⟨fraction, tail, rfl, rfl, hfraction, hrun⟩ := point_of_decimal hdigits hform hbegins
    rw [mantissa_point, Option.map_eq_none_iff] at h
    exact munches_digits.nothing h fraction hrun hfraction

/-- A sign at the start of an exponent, and digits after it. -/
theorem run_of_exponent_sign {sign : Char} {rest other : Text} (hsign : sign = '+' ∨ sign = '-')
    (hother : Exponent other) (hbegins : other <+: sign :: rest) :
    ∃ run, other = sign :: run ∧ run <+: rest ∧ Text.IsRun Char.isDigit run := by
  cases hother with
  | plain h =>
    have hdigits : digits (sign :: rest) = none := by
      refine manyOf_eq_none_iff.2 ?_
      rcases hsign with rfl | rfl <;> rfl
    exact absurd hbegins (munches_digits.nothing hdigits other h)
  | @signed _ run _ h =>
    obtain ⟨rfl, hrun⟩ := List.cons_prefix_cons.1 hbegins
    exact ⟨run, rfl, hrun, h⟩

theorem run_of_exponent_plain {c : Char} {rest other : Text} (hsign : ¬ (c = '+' ∨ c = '-'))
    (hother : Exponent other) (hbegins : other <+: c :: rest) : Text.IsRun Char.isDigit other := by
  cases hother with
  | plain h => exact h
  | signed hother _ =>
    obtain ⟨rfl, -⟩ := List.cons_prefix_cons.1 hbegins
    exact absurd hother hsign

theorem signedDigits_cons (c : Char) (rest : Text) :
    signedDigits (c :: rest) =
      if c = '+' ∨ c = '-' then (digits rest).map (extend [c]) else digits (c :: rest) := by
  simp only [signedDigits, Bool.or_eq_true, beq_iff_eq]

theorem munches_signedDigits : signedDigits.Munches Exponent := by
  constructor
  · intro text lexeme rest h
    cases text with
    | nil => cases h
    | cons c tail =>
      rw [signedDigits_cons] at h
      split at h
      · next hsign =>
        obtain ⟨run, hdigits, rfl⟩ := map_extend_eq_some_iff.1 h
        have hlongest := munches_digits.longest hdigits
        refine ⟨.signed hsign hlongest.holds, congrArg (c :: ·) hlongest.append_eq, ?_⟩
        intro other hother hbegins
        obtain ⟨piece, rfl, hpiece, hrun⟩ := run_of_exponent_sign hsign hother hbegins
        exact Nat.succ_le_succ (hlongest.length_le piece hrun hpiece)
      · next hsign =>
        have hlongest := munches_digits.longest h
        refine ⟨.plain hlongest.holds, hlongest.append_eq, fun other hother hbegins => ?_⟩
        exact hlongest.length_le other (run_of_exponent_plain hsign hother hbegins) hbegins
  · intro text h lexeme hform hbegins
    cases text with
    | nil =>
      obtain rfl := List.prefix_nil.1 hbegins
      cases hform with
      | plain hrun => exact hrun.ne_nil rfl
    | cons c tail =>
      rw [signedDigits_cons] at h
      split at h
      · next hsign =>
        rw [Option.map_eq_none_iff] at h
        obtain ⟨piece, rfl, hpiece, hrun⟩ := run_of_exponent_sign hsign hform hbegins
        exact munches_digits.nothing h piece hrun hpiece
      · next hsign =>
        exact munches_digits.nothing h lexeme (run_of_exponent_plain hsign hform hbegins) hbegins

theorem leadingZero_eq_some_iff {text lexeme after : Text} :
    leadingZero text = some (lexeme, after) ↔
      ∃ rest digits, text = '0' :: rest ∧ lexeme = '0' :: digits ∧
        Text.Longest (Text.IsRun Char.isDigit) rest digits after := by
  unfold leadingZero
  split
  · next rest =>
    rw [map_extend_eq_some_iff]
    simp only [munches_digits.eq_some_iff, List.cons.injEq, true_and, List.singleton_append]
    constructor
    · rintro ⟨digits, hdigits, rfl⟩
      exact ⟨rest, digits, rfl, rfl, hdigits⟩
    · rintro ⟨_, digits, rfl, rfl, hdigits⟩
      exact ⟨digits, hdigits, rfl⟩
  · next hother =>
    refine iff_of_false (by simp) ?_
    rintro ⟨rest, _, rfl, -⟩
    exact hother rest rfl

theorem beginsDecimal_iff {edition : Edition} {text : Text} :
    BeginsDecimal edition text ↔ ¬ Announces edition text ∧ leadingZero text = none := by
  have hzero : leadingZero text = none ↔ ∀ c rest, text = '0' :: c :: rest → c.isDigit = false := by
    unfold leadingZero
    split
    · next rest =>
      rw [Option.map_eq_none_iff, digits, manyOf_eq_none_iff]
      cases rest with
      | nil => simp
      | cons c rest => simp
    · next hother =>
      exact iff_of_true rfl fun c rest heq => absurd heq (hother _)
  rw [hzero]
  exact ⟨fun h => ⟨h.not_announces, h.not_leadingZero⟩, fun h => ⟨h.1, h.2⟩⟩

/-- What the notations give, read with the matchers, is what is written. -/
theorem written_iff_reads {edition : Edition} {text : Text} {found : Selection} :
    Written edition text found ↔ Reads edition text found := by
  constructor
  · intro h
    cases h with
    | @announced radix mark rest digits after hsince hmark hdigits =>
      have hrun := (munches_manyOf _).eq_some_iff.2 hdigits
      have hreads : Reads edition _ _ := .announced rest hsince hmark
      rwa [judgeAnnounced, hrun] at hreads
    | @missingDigits radix mark rest hsince hmark hnone =>
      have hreads : Reads edition _ _ := .announced rest hsince hmark
      rwa [judgeAnnounced, manyOf_eq_none_iff.2 hnone] at hreads
    | leadingZero hdigits =>
      exact .leadingZero (leadingZero_eq_some_iff.2 ⟨_, _, rfl, rfl, hdigits⟩)
    | decimal hbegins hmantissa hmark =>
      obtain ⟨hannounces, hzero⟩ := beginsDecimal_iff.1 hbegins
      have hreads := Reads.decimal hannounces hzero (munches_mantissa.eq_some_iff.2 hmantissa)
      rwa [judgeDecimal_of_head hmark] at hreads
    | scientific hbegins hmantissa hmark hexponent =>
      obtain ⟨hannounces, hzero⟩ := beginsDecimal_iff.1 hbegins
      have hreads := Reads.decimal hannounces hzero (munches_mantissa.eq_some_iff.2 hmantissa)
      rwa [judgeDecimal, if_pos hmark, munches_signedDigits.eq_some_iff.2 hexponent] at hreads
    | missingExponent hbegins hmantissa hmark hnone =>
      obtain ⟨hannounces, hzero⟩ := beginsDecimal_iff.1 hbegins
      have hreads := Reads.decimal hannounces hzero (munches_mantissa.eq_some_iff.2 hmantissa)
      rwa [judgeDecimal, if_pos hmark, munches_signedDigits.eq_none_iff.2 hnone] at hreads
  · intro h
    cases h with
    | @announced radix mark rest hsince hmark =>
      unfold judgeAnnounced
      split
      · next hfound => exact .announced hsince hmark ((munches_manyOf _).longest hfound)
      · next hnone => exact .missingDigits hsince hmark (manyOf_eq_none_iff.1 hnone)
    | leadingZero h =>
      obtain ⟨rest, digits, rfl, rfl, hdigits⟩ := leadingZero_eq_some_iff.1 h
      exact .leadingZero hdigits
    | @decimal text mantissa after hannounces hzero h =>
      have hbegins := beginsDecimal_iff.2 ⟨hannounces, hzero⟩
      have hmantissa := munches_mantissa.longest h
      cases after with
      | nil => exact .decimal hbegins hmantissa rfl
      | cons c rest =>
        cases hmark : isExponentMark c with
        | false =>
          rw [@judgeDecimal_of_head mantissa (c :: rest) hmark]
          exact .decimal hbegins hmantissa hmark
        | true =>
          rw [judgeDecimal, if_pos hmark]
          cases hsigned : signedDigits rest with
          | none =>
            exact .missingExponent hbegins hmantissa hmark (munches_signedDigits.nothing hsigned)
          | some found =>
            exact .scientific hbegins hmantissa hmark (munches_signedDigits.longest hsigned)

theorem judge_digitAfter {lexeme after : Text}
    (h : (judge lexeme after).action = .fail (.malformedNumeral .digitAfter)) :
    after.head?.any Char.isDigit = true := by
  cases after with
  | nil => cases h
  | cons c after =>
    rw [List.head?_cons, Option.any_some]
    by_contra hdigit
    rw [judge, if_neg hdigit] at h
    split at h <;> cases h

theorem isDigitIn_hexadecimal {c : Char} (h : c.isDigit = true) :
    isDigitIn Radix.hexadecimal.base c = true := by
  have hall : c.isDigit = true → isDigitIn Radix.hexadecimal.base c = true := by
    refine Text.forall_ascii ?_ c (Text.ascii_isDigit c h)
    decide +kernel
  exact hall h

/-- A digit is of no use behind the digits of a binary or an octal numeral, and nowhere else. -/
theorem Written.radix_of_digitAfter {edition : Edition} {text : Text} {found : Selection}
    (h : Written edition text found)
    (hfault : found.action = .fail (.malformedNumeral .digitAfter)) :
    ∃ radix mark rest, text = '0' :: mark :: rest ∧ Radix.announcedBy radix mark = true ∧
      (radix = .binary ∨ radix = .octal) := by
  have hnever : ∀ {after : Text} {p : Char → Bool}, (∀ c, c.isDigit = true → p c = true) →
      after.head?.any p = false → ¬ after.head?.any Char.isDigit = true := by
    intro after p hp hnone hdigit
    obtain ⟨c, hhead, hc⟩ := (Option.any_eq_true _ _).1 hdigit
    rw [hhead, Option.any_some, hp c hc] at hnone
    cases hnone
  cases h with
  | @announced radix mark rest digits after _ hmark hdigits =>
    refine ⟨radix, mark, rest, rfl, hmark, ?_⟩
    cases radix with
    | binary => exact .inl rfl
    | octal => exact .inr rfl
    | hexadecimal =>
      exact absurd (judge_digitAfter hfault)
        (hnever (fun _ => isDigitIn_hexadecimal) hdigits.head?_eq)
  | missingDigits => cases hfault
  | leadingZero hdigits =>
    exact absurd (judge_digitAfter hfault) (hnever (fun _ => id) hdigits.head?_eq)
  | decimal _ hmantissa =>
    have hstop := head?_of_mantissa (munches_mantissa.eq_some_iff.2 hmantissa)
    exact absurd (judge_digitAfter hfault) (hnever (fun _ => id) hstop)
  | scientific _ _ _ hexponent =>
    have hstop := head?_of_signedDigits (munches_signedDigits.eq_some_iff.2 hexponent)
    exact absurd (judge_digitAfter hfault) (hnever (fun _ => id) hstop)
  | missingExponent => cases hfault

end Numeral

/-- Of all rules this is the first that takes part and matches, and this is what it finds. -/
def Rule.Answers (rule : Rule) (edition : Edition) (context : Context) (text : Text)
    (found : Selection) : Prop :=
  ∃ earlier later, rules = earlier ++ rule :: later ∧
    (∀ other ∈ earlier, other.find? edition context text = none) ∧
    rule.find? edition context text = some found

/-- What the rules for numerals find is found by the first rule that answers, if no rule for blanks does. -/
theorem exists_answers_of_numeralRules {edition : Edition} {context : Context} {text : Text}
    {found : Selection} (hblank : firstOf blankRules edition context text = none)
    (hfound : firstOf numeralRules edition context text = some found) :
    ∃ rule ∈ numeralRules, rule.Answers edition context text found := by
  obtain ⟨earlier, rule, later, hsplit, hfind, hnone⟩ := List.findSome?_eq_some_iff.1 hfound
  have hmem : rule ∈ numeralRules := by simp [hsplit]
  let families := quotationRules ++ templateRules ++ wordRules ++ commentRules ++ regExpRules ++
    operatorRules ++ punctuationRules
  refine ⟨rule, hmem, blankRules ++ earlier, later ++ families, ?_, ?_, hfind⟩
  · simp only [rules, hsplit, families, List.append_assoc, List.cons_append]
  · intro other hother
    rcases List.mem_append.1 hother with hother | hother
    · exact List.findSome?_eq_none_iff.1 hblank other hother
    · exact hnone other hother

/-- In every edition from the oldest on and in every context, a rule for numerals answers where a numeral
begins, with what is written there and nothing else. A digit is only held against a numeral behind the
digits of a binary or an octal one. -/
theorem numerals_written {edition : Edition} (hes5 : edition.includes .es5 = true) (context : Context)
    {text : Text} (hbegins : Numeral.Begins text) :
    ∃ found,
      (∃ rule ∈ numeralRules, rule.Answers edition context text found) ∧
      select edition context text = some found ∧
      (∀ other, Numeral.Written edition text other ↔ other = found) ∧
      (found.action = .fail (.malformedNumeral .digitAfter) →
        ∃ radix mark rest, text = '0' :: mark :: rest ∧ Radix.announcedBy radix mark = true ∧
          (radix = .binary ∨ radix = .octal)) := by
  obtain ⟨found, hreads⟩ := Numeral.exists_reads hbegins.mantissa_ne_none
  have hwritten := Numeral.written_iff_reads.2 hreads
  refine ⟨found, exists_answers_of_numeralRules (firstOf_blankRules_of_begins hbegins)
    (hreads.firstOf_eq hes5), hreads.select_eq hes5, fun other => ?_, hwritten.radix_of_digitAfter⟩
  constructor
  · intro hother
    have hselect : select edition context text = some other :=
      (Numeral.written_iff_reads.1 hother).select_eq hes5
    rw [hreads.select_eq hes5] at hselect
    exact (Option.some.inj hselect).symm
  · rintro rfl
    exact hwritten

/-- A binary numeral with a digit of no use behind it. -/
theorem numerals_written_binary :
    let text : Text := ['0', 'b', '1', '0', '2', ';']
    let found : Selection :=
      { action := .fail (.malformedNumeral .digitAfter)
        lexeme := ['0', 'b', '1', '0', '2']
        rest := [';'] }
    Edition.es2015.includes .es5 = true ∧ Numeral.Begins text ∧
      select .es2015 .initial text = some found ∧ Numeral.Written .es2015 text found := by
  intro text found
  have hes5 : Edition.es2015.includes .es5 = true := by decide
  have hbegins : Numeral.Begins text := .inl rfl
  have hselect : select .es2015 .initial text = some found := by decide +kernel
  obtain ⟨other, -, hother, hwritten, -⟩ := numerals_written hes5 .initial hbegins
  refine ⟨hes5, hbegins, hselect, (hwritten found).2 ?_⟩
  exact Option.some.inj (hselect.symm.trans hother)

end EcmaLex
