import EcmaLex.Rule.Table

/-!
# What may stand behind a lexeme

A scanner that has found a lexeme has looked at some of the text behind it, to see that nothing goes on
there. Numerals, words, operators and punctuation go over no blank and no line terminator, so another
text may stand behind them if it begins with nothing, up to its first blank or line terminator, that the
first one does not begin with: `Shortens`. In front of such a text a matcher finds its lexeme again,
`FoundAgain`, and one that found nothing finds nothing in it, `StaysAbsent`.
-/

namespace EcmaLex

/-- A blank or a line terminator. -/
def isGap (c : Char) : Bool :=
  isBlank c || isLineTerminator c

/-- Whatever `other` begins with before its first gap, `rest` begins with as well. -/
def Shortens (other rest : Text) : Prop :=
  ∀ ⦃spelling : Text⦄, (∀ c ∈ spelling, isGap c = false) → spelling <+: other → spelling <+: rest

theorem isGap_eq_false {c : Char} (h : isNamePart c = true) : isGap c = false := by
  have hne : ∀ d, isNamePart d = false → (c == d) = false := by
    intro d hd
    rw [beq_eq_false_iff_ne]
    rintro rfl
    rw [h] at hd
    cases hd
  simp only [isGap, isBlank, isLineTerminator, Bool.or_eq_false_iff]
  exact ⟨⟨⟨⟨hne _ (by decide), hne _ (by decide)⟩, hne _ (by decide)⟩, hne _ (by decide)⟩,
    hne _ (by decide), hne _ (by decide)⟩

theorem shortens_of_isPrefix {other rest : Text} (h : other <+: rest) : Shortens other rest :=
  fun _ _ hbegins => hbegins.trans h

/-- At a gap nothing goes on. -/
theorem shortens_gap {c : Char} (hc : isGap c = true) (more rest : Text) :
    Shortens (c :: more) rest := by
  intro spelling hspelling hbegins
  cases spelling with
  | nil => exact List.nil_prefix
  | cons d spelling =>
    obtain ⟨rfl, -⟩ := List.cons_prefix_cons.1 hbegins
    rw [hspelling d List.mem_cons_self] at hc
    cases hc

namespace Shortens

variable {other rest : Text}

theorem append (h : Shortens other rest) (left : Text) : Shortens (left ++ other) (left ++ rest) := by
  induction left with
  | nil => exact h
  | cons c left ih =>
    intro spelling hspelling hbegins
    cases spelling with
    | nil => exact List.nil_prefix
    | cons d spelling =>
      rw [List.cons_append, List.cons_prefix_cons] at hbegins ⊢
      exact ⟨hbegins.1, ih (fun e he => hspelling e (List.mem_cons_of_mem _ he)) hbegins.2⟩

theorem tail {c : Char} (h : Shortens (c :: other) (c :: rest)) (hc : isGap c = false) :
    Shortens other rest := by
  intro spelling hspelling hbegins
  have hcons : ∀ d ∈ c :: spelling, isGap d = false := List.forall_mem_cons.2 ⟨hc, hspelling⟩
  exact (List.cons_prefix_cons.1 (h hcons (List.cons_prefix_cons.2 ⟨rfl, hbegins⟩))).2

theorem head? (h : Shortens other rest) {c : Char} (hc : isGap c = false)
    (hother : other.head? = some c) : rest.head? = some c := by
  obtain ⟨tail, rfl⟩ := List.head?_eq_some_iff.1 hother
  obtain ⟨later, rfl⟩ := @h [c] (by simpa using hc) ⟨tail, rfl⟩
  rfl

/-- A class without gaps does not go on in `other` if it does not in `rest`. -/
theorem any_head? (h : Shortens other rest) {p : Char → Bool}
    (hp : ∀ c, p c = true → isGap c = false) (hrest : rest.head?.any p = false) :
    other.head?.any p = false := by
  cases hother : other.head? with
  | none => rfl
  | some c =>
    cases hc : p c with
    | false => exact hc
    | true =>
      rw [h.head? (hp c hc) hother, Option.any_some, hc] at hrest
      cases hrest

end Shortens

namespace Matcher

/-- What the matcher finds, it finds again in front of a text that goes on with nothing more. -/
def FoundAgain (matcher : Matcher) : Prop :=
  ∀ ⦃lexeme rest other : Text⦄, Shortens other rest →
    matcher (lexeme ++ rest) = some (lexeme, rest) → matcher (lexeme ++ other) = some (lexeme, other)

/-- Where the matcher finds nothing, it finds nothing in a text that begins with nothing more. -/
def StaysAbsent (matcher : Matcher) : Prop :=
  ∀ ⦃text other : Text⦄, Shortens other text → matcher text = none → matcher other = none

/-- The lexeme is found again whatever stands behind it. -/
def SelfEnding (matcher : Matcher) : Prop :=
  ∀ ⦃text lexeme rest : Text⦄ (other : Text), matcher text = some (lexeme, rest) →
    matcher (lexeme ++ other) = some (lexeme, other)

theorem SelfEnding.foundAgain {matcher : Matcher} (h : matcher.SelfEnding) : matcher.FoundAgain :=
  fun _ _ other _ hfound => h other hfound

variable {p : Char → Bool}

theorem selfEnding_one (p : Char → Bool) : (one p).SelfEnding := by
  intro text lexeme rest other h
  cases text with
  | nil => cases h
  | cons c text =>
    obtain ⟨hc, hfound⟩ := Option.ite_none_right_eq_some.1 h
    obtain ⟨rfl, -⟩ := Prod.mk.inj (Option.some.inj hfound)
    exact if_pos hc

theorem staysAbsent_manyOf (hp : ∀ c, p c = true → isGap c = false) : (manyOf p).StaysAbsent := by
  intro text other h hnone
  rw [manyOf_eq_none_iff] at hnone ⊢
  exact h.any_head? hp hnone

theorem foundAgain_manyOf (hp : ∀ c, p c = true → isGap c = false) : (manyOf p).FoundAgain := by
  intro lexeme rest other h hfound
  rw [manyOf_eq_some_iff, Text.run_eq_iff] at hfound ⊢
  exact ⟨hfound.1, hfound.2.1, h.any_head? hp hfound.2.2⟩

theorem selfEnding_exactly (spelling : Text) : (exactly spelling).SelfEnding := by
  intro text lexeme rest other h
  obtain ⟨rfl, -⟩ := exactly_eq_some_iff.1 h
  exact exactly_eq_some_iff.2 ⟨rfl, rfl⟩

theorem staysAbsent_exactly {spelling : Text} (hs : ∀ c ∈ spelling, isGap c = false) :
    (exactly spelling).StaysAbsent := by
  intro text other h hnone
  rw [exactly_eq_none_iff] at hnone ⊢
  exact fun hbegins => hnone (h hs hbegins)

theorem staysAbsent_oneOf {spellings : List Text}
    (hs : ∀ spelling ∈ spellings, ∀ c ∈ spelling, isGap c = false) :
    (oneOf spellings).StaysAbsent := by
  intro text other h hnone
  rw [oneOf, List.findSome?_eq_none_iff] at hnone ⊢
  exact fun spelling hmem => staysAbsent_exactly (hs spelling hmem) h (hnone spelling hmem)

theorem foundAgain_oneOf {spellings : List Text}
    (hs : ∀ spelling ∈ spellings, ∀ c ∈ spelling, isGap c = false) :
    (oneOf spellings).FoundAgain := by
  intro lexeme rest other h hfound
  unfold oneOf at hfound ⊢
  induction spellings with
  | nil => cases hfound
  | cons spelling spellings ih =>
    rw [List.findSome?_cons] at hfound ⊢
    have hfirst := hs spelling List.mem_cons_self
    have hlater := ih fun other hmem => hs other (List.mem_cons_of_mem _ hmem)
    cases hspelling : exactly spelling (lexeme ++ rest) with
    | some found =>
      rw [hspelling] at hfound
      rw [selfEnding_exactly spelling other (hspelling.trans hfound)]
    | none =>
      rw [hspelling] at hfound
      rw [staysAbsent_exactly hfirst (h.append lexeme) hspelling]
      exact hlater hfound

theorem staysAbsent_toLineEnd {opening : Text} (hs : ∀ c ∈ opening, isGap c = false) :
    (toLineEnd opening).StaysAbsent := by
  intro text other h hnone
  rw [toLineEnd_eq_none_iff] at hnone ⊢
  exact fun hbegins => hnone (h hs hbegins)

theorem FoundAgain.orElse {first second : Matcher} (hf : first.FoundAgain)
    (ha : first.StaysAbsent) (hs : second.FoundAgain) : (first.orElse second).FoundAgain := by
  intro lexeme rest other h hfound
  simp only [Matcher.orElse] at hfound ⊢
  cases hfirst : first (lexeme ++ rest) with
  | some found =>
    rw [hfirst] at hfound
    rw [hf h (hfirst.trans hfound)]
  | none =>
    rw [hfirst] at hfound
    rw [ha (h.append lexeme) hfirst]
    exact hs h hfound

theorem StaysAbsent.orElse {first second : Matcher} (hf : first.StaysAbsent)
    (hs : second.StaysAbsent) : (first.orElse second).StaysAbsent := by
  intro text other h hnone
  simp only [Matcher.orElse] at hnone ⊢
  cases hfirst : first text with
  | some found =>
    rw [hfirst] at hnone
    cases hnone
  | none =>
    rw [hfirst] at hnone
    rw [hf h hfirst]
    exact hs h hnone

/-- A reader of one character, and of what `matcher` finds behind it. -/
theorem foundAgain_of_head {first matcher : Matcher} (c : Char)
    (hhead : ∀ rest, first (c :: rest) = (matcher rest).map (extend [c]))
    (hother : ∀ text, text.head? ≠ some c → first text = none) (h : matcher.FoundAgain) :
    first.FoundAgain := by
  intro lexeme rest other hshortens hfound
  cases lexeme with
  | nil =>
    by_cases hc : rest.head? = some c
    · obtain ⟨rest, rfl⟩ := List.head?_eq_some_iff.1 hc
      rw [List.nil_append, hhead] at hfound
      obtain ⟨tail, -, hnil⟩ := map_extend_eq_some_iff.1 hfound
      cases hnil
    · rw [List.nil_append, hother rest hc] at hfound
      cases hfound
  | cons d lexeme =>
    by_cases hc : d = c
    · rw [hc, List.cons_append, hhead] at hfound
      rw [hc, List.cons_append, hhead]
      obtain ⟨tail, htail, heq⟩ := map_extend_eq_some_iff.1 hfound
      obtain rfl : tail = lexeme := (List.cons.inj heq).2
      rw [h hshortens htail]
      rfl
    · have hhead : (d :: lexeme ++ rest).head? ≠ some c := fun heq => hc (Option.some.inj heq)
      rw [hother _ hhead] at hfound
      cases hfound

theorem staysAbsent_of_head {first matcher : Matcher} {c : Char} (hgap : isGap c = false)
    (hhead : ∀ rest, first (c :: rest) = (matcher rest).map (extend [c]))
    (hother : ∀ text, text.head? ≠ some c → first text = none) (h : matcher.StaysAbsent) :
    first.StaysAbsent := by
  intro text other hshortens hnone
  by_cases hc : other.head? = some c
  · obtain ⟨tail, rfl⟩ := List.head?_eq_some_iff.1 hc
    obtain ⟨rest, rfl⟩ := List.head?_eq_some_iff.1 (hshortens.head? hgap hc)
    rw [hhead, Option.map_eq_none_iff] at hnone ⊢
    exact h (hshortens.tail hgap) hnone
  · exact hother other hc

end Matcher

end EcmaLex
