import EcmaLex.Lexeme.Operator
import EcmaLex.Proofs.Offset.Basic

/-!
# Blanks, operators and punctuation by byte offsets

An operator is told by its first three bytes, and the byte after it says whether an equals sign
belongs to it.
-/

namespace EcmaLex

open Matcher Text

/-- The length of the first of the given spellings that a text starts with. -/
def spelledSize : List Text → Text → Option Nat
  | [], _ => none
  | spelling :: spellings, text =>
    if spelling.isPrefixOf text then some spelling.byteSize else spelledSize spellings text

namespace Measure

/-- A character of the class, as long as it is. -/
def one (p : Char → Bool) : Measure := fun text =>
  some (((text.charAt? 0).filter p).map Char.utf8Size)

/-- The first of the given spellings that the text starts with. -/
def oneOf (spellings : List Text) : Measure := fun text =>
  some (spelledSize spellings text)

/-- The one character given, one byte long. -/
def mark (c : Char) : Measure := fun text =>
  some (if text.head? = some c then some 1 else none)

/-- The pair CR LF, or one line terminator, one byte long. -/
def lineEnd : Measure := fun text =>
  if ['\r', '\n'].isPrefixOf text then some (some 2)
  else some (((text.charAt? 0).filter isLineTerminator).map fun _ => 1)

end Measure

theorem measures_one (p : Char → Bool) : Measures (Measure.one p) (one p) := by
  intro text
  cases text with
  | nil => rfl
  | cons c rest =>
    rw [Measure.one, charAt?_zero, List.head?_cons, Option.filter_some, one]
    cases p c with
    | false => rfl
    | true => rfl

theorem measures_oneOf (spellings : List Text) :
    Measures (Measure.oneOf spellings) (oneOf spellings) := by
  intro text
  unfold Measure.oneOf
  induction spellings with
  | nil => rfl
  | cons spelling spellings ih =>
    rw [spelledSize, oneOf, List.findSome?_cons, exactly]
    by_cases h : spelling.isPrefixOf text = true
    · rw [if_pos h, if_pos h]
      rfl
    · rw [if_neg h, if_neg h]
      exact ih

theorem measures_exactly {c : Char} (hc : c.utf8Size = 1) :
    Measures (Measure.mark c) (exactly [c]) := by
  intro text
  have hone : byteSize [c] = 1 := by rw [byteSize_cons, byteSize_nil, hc]
  unfold Measure.mark exactly
  by_cases h : text.head? = some c
  · obtain ⟨rest, rfl⟩ := List.head?_eq_some_iff.1 h
    rw [if_pos h, if_pos (by simp), Option.map_some, hone]
  · have hprefix : ¬ [c].isPrefixOf text = true := by
      intro hprefix
      obtain ⟨rest, rfl⟩ := List.isPrefixOf_iff_prefix.1 hprefix
      exact h rfl
    rw [if_neg h, if_neg hprefix]
    rfl

theorem measures_lineEnd :
    Measures Measure.lineEnd (oneOf [['\r', '\n'], ['\n'], ['\r']]) := by
  intro text
  rw [← measures_oneOf]
  unfold Measure.lineEnd Measure.oneOf
  rw [charAt?_zero, spelledSize]
  by_cases h : ['\r', '\n'].isPrefixOf text = true
  · rw [if_pos h, if_pos h]
    rfl
  · rw [if_neg h, if_neg h]
    cases text with
    | nil => rfl
    | cons c rest =>
      by_cases hline : c = '\n' ∨ c = '\r'
      · rcases hline with rfl | rfl <;> rfl
      · rw [not_or] at hline
        have hother : isLineTerminator c = false := by simp [isLineTerminator, hline]
        rw [List.head?_cons, Option.filter_some, hother]
        simp [spelledSize, Ne.symm hline.1, Ne.symm hline.2]

namespace Text

/-- Whether there is a byte at an offset and it is the given character. -/
def byteIs (text : Text) (i : Nat) (c : Char) : Bool :=
  text.byteAny i (· == c)

theorem byteIs_cons_zero (c : Char) (rest : Text) {d : Char} (hd : d.toNat < 128) :
    byteIs (c :: rest) 0 d = (c == d) :=
  byteAny_zero_cons (ascii_beq hd) c rest

theorem byteIs_cons_succ {c : Char} (hc : c.toNat < 128) (rest : Text) (i : Nat) (d : Char) :
    byteIs (c :: rest) (i + 1) d = rest.byteIs i d :=
  byteAny_succ_cons hc rest i _

end Text

namespace Operator

/-- The length of an operator that an equals sign may follow, told by its first bytes. -/
def assignableSize (text : Text) : Option Nat :=
  if text.byteIs 0 '!' && text.byteIs 1 '=' || text.byteIs 0 '=' && text.byteIs 1 '=' ||
      text.byteIs 0 '<' && text.byteIs 1 '<' then
    some 2
  else if text.byteIs 0 '>' && text.byteIs 1 '>' && text.byteIs 2 '>' then some 3
  else if text.byteIs 0 '>' && text.byteIs 1 '>' then some 2
  else if ['+', '-', '*', '/', '%', '&', '|', '^', '<', '=', '>'].any (text.byteIs 0) then some 1
  else none

def baseSize : Measure := fun text =>
  if text.byteIs 0 '&' && text.byteIs 1 '&' || text.byteIs 0 '|' && text.byteIs 1 '|' ||
      text.byteIs 0 '+' && text.byteIs 1 '+' || text.byteIs 0 '-' && text.byteIs 1 '-' then
    some (some 2)
  else
    match assignableSize text with
    | some n => some (some (if text.byteIs n '=' then n + 1 else n))
    | none => some (if ['!', '?', ':', '~'].any (text.byteIs 0) then some 1 else none)

/-- What the spellings that begin with a character go on with. -/
def continuing (c : Char) (spellings : List Text) : List Text :=
  spellings.filterMap fun
    | [] => none
    | d :: spelling => if d = c then some spelling else none

theorem spelledSize_cons {spellings : List Text} (hne : [] ∉ spellings) (c : Char) (rest : Text) :
    spelledSize spellings (c :: rest) =
      (spelledSize (continuing c spellings) rest).map (c.utf8Size + ·) := by
  induction spellings with
  | nil => rfl
  | cons spelling spellings ih =>
    have hlater := ih fun hmem => hne (List.mem_cons_of_mem _ hmem)
    cases spelling with
    | nil => exact absurd List.mem_cons_self hne
    | cons d spelling =>
      by_cases hd : d = c
      · subst hd
        have hstep : continuing d ((d :: spelling) :: spellings) =
            spelling :: continuing d spellings := by simp [continuing]
        rw [hstep, spelledSize, spelledSize]
        by_cases h : spelling.isPrefixOf rest = true
        · have hcons : (d :: spelling).isPrefixOf (d :: rest) = true := by simpa using h
          rw [if_pos h, if_pos hcons]
          rfl
        · have hcons : ¬ (d :: spelling).isPrefixOf (d :: rest) = true := by simpa using h
          rw [if_neg h, if_neg hcons, hlater]
      · have hstep : continuing c ((d :: spelling) :: spellings) = continuing c spellings := by
          simp [continuing, hd]
        have hcons : ¬ (d :: spelling).isPrefixOf (c :: rest) = true := by simp [hd]
        rw [hstep, spelledSize, if_neg hcons, hlater]

theorem not_mem_base : [] ∉ base := by
  decide +kernel

/-- An operator that its first character doubled also is, or an equals sign after it. -/
theorem size_doubled {c : Char} (hc : c = '&' ∨ c = '|' ∨ c = '+' ∨ c = '-') (rest : Text) :
    baseSize (c :: rest) = some (spelledSize base (c :: rest)) := by
  have hone : c.utf8Size = 1 := by
    rcases hc with rfl | rfl | rfl | rfl <;> rfl
  have hassign : '='.utf8Size = 1 := rfl
  have hcontinuing : continuing c base = [[c], ['='], []] := by
    rcases hc with rfl | rfl | rfl | rfl <;> decide +kernel
  rw [spelledSize_cons not_mem_base, hcontinuing, hone]
  cases rest with
  | nil => rcases hc with rfl | rfl | rfl | rfl <;> rfl
  | cons d rest =>
    by_cases hd : d = '=' ∨ d = c
    · have hspelled : spelledSize [[c], ['='], []] (d :: rest) = some 1 := by
        rcases hd with rfl | rfl <;> simp [spelledSize, hone, hassign]
      rw [hspelled]
      rcases hd with rfl | rfl <;> rcases hc with rfl | rfl | rfl | rfl <;>
        simp (disch := decide) [baseSize, assignableSize, byteIs_cons_zero, byteIs_cons_succ]
    · rw [not_or] at hd
      have hspelled : spelledSize [[c], ['='], []] (d :: rest) = some 0 := by
        simp [spelledSize, Ne.symm hd.1, Ne.symm hd.2]
      rw [hspelled]
      rcases hc with rfl | rfl | rfl | rfl <;>
        simp (disch := decide) [baseSize, assignableSize, byteIs_cons_zero, byteIs_cons_succ, hd.1,
          hd.2]

theorem isPrefixOf_singleton {d : Char} (hd : d.toNat < 128) (text : Text) :
    [d].isPrefixOf text = text.byteIs 0 d := by
  cases text with
  | nil => rfl
  | cons c text =>
    rw [byteIs_cons_zero c text hd]
    simp [List.isPrefixOf, Bool.beq_comm]

/-- An operator of which one equals sign is a part and a second one may be. -/
theorem size_compared {c : Char} (hc : c = '!' ∨ c = '=') (rest : Text) :
    baseSize (c :: rest) = some (spelledSize base (c :: rest)) := by
  have hone : c.utf8Size = 1 := by
    rcases hc with rfl | rfl <;> rfl
  have hassign : '='.utf8Size = 1 := rfl
  have hcontinuing : continuing c base = [['=', '='], ['='], []] := by
    rcases hc with rfl | rfl <;> decide +kernel
  rw [spelledSize_cons not_mem_base, hcontinuing, hone]
  cases rest with
  | nil => rcases hc with rfl | rfl <;> rfl
  | cons d rest =>
    by_cases hd : d = '='
    · subst hd
      have hspelled : spelledSize [['=', '='], ['='], []] ('=' :: rest) =
          some (if byteIs rest 0 '=' then 2 else 1) := by
        rw [← isPrefixOf_singleton (by decide)]
        simp [spelledSize, hassign]
        split <;> rfl
      rw [hspelled]
      rcases hc with rfl | rfl <;>
        simp (disch := decide) [baseSize, assignableSize, byteIs_cons_zero, byteIs_cons_succ]
      all_goals split <;> rfl
    · have hspelled : spelledSize [['=', '='], ['='], []] (d :: rest) = some 0 := by
        simp [spelledSize, Ne.symm hd]
      rw [hspelled]
      rcases hc with rfl | rfl <;>
        simp (disch := decide) [baseSize, assignableSize, byteIs_cons_zero, byteIs_cons_succ, hd]

theorem size_shiftedLeft (rest : Text) :
    baseSize ('<' :: rest) = some (spelledSize base ('<' :: rest)) := by
  have hone : '<'.utf8Size = 1 := rfl
  have hassign : '='.utf8Size = 1 := rfl
  have hcontinuing : continuing '<' base = [['<', '='], ['<'], ['='], []] := by decide +kernel
  rw [spelledSize_cons not_mem_base, hcontinuing, hone]
  cases rest with
  | nil => rfl
  | cons d rest =>
    by_cases hshift : d = '<'
    · subst hshift
      have hspelled : spelledSize [['<', '='], ['<'], ['='], []] ('<' :: rest) =
          some (if byteIs rest 0 '=' then 2 else 1) := by
        rw [← isPrefixOf_singleton (by decide)]
        simp [spelledSize, hassign, hone]
        split <;> rfl
      rw [hspelled]
      simp (disch := decide) [baseSize, assignableSize, byteIs_cons_zero, byteIs_cons_succ]
      split <;> rfl
    · by_cases hd : d = '='
      · subst hd
        simp (disch := decide) [baseSize, assignableSize, spelledSize, byteIs_cons_zero,
          byteIs_cons_succ, hassign]
      · simp (disch := decide) [baseSize, assignableSize, spelledSize, byteIs_cons_zero,
          byteIs_cons_succ, hd, hshift, Ne.symm hd, Ne.symm hshift]

theorem size_shiftedRight (rest : Text) :
    baseSize ('>' :: rest) = some (spelledSize base ('>' :: rest)) := by
  have hone : '>'.utf8Size = 1 := rfl
  have hassign : '='.utf8Size = 1 := rfl
  have hcontinuing : continuing '>' base =
      [['>', '>', '='], ['>', '>'], ['>', '='], ['>'], ['='], []] := by decide +kernel
  rw [spelledSize_cons not_mem_base, hcontinuing, hone]
  cases rest with
  | nil => rfl
  | cons d rest =>
    by_cases hshift : d = '>'
    · subst hshift
      by_cases htriple : rest.head? = some '>'
      · obtain ⟨rest, rfl⟩ := List.head?_eq_some_iff.1 htriple
        have hspelled : spelledSize [['>', '>', '='], ['>', '>'], ['>', '='], ['>'], ['='], []]
            ('>' :: '>' :: rest) = some (if byteIs rest 0 '=' then 3 else 2) := by
          rw [← isPrefixOf_singleton (by decide)]
          simp [spelledSize, hassign, hone]
          split <;> rfl
        rw [hspelled]
        simp (disch := decide) [baseSize, assignableSize, byteIs_cons_zero, byteIs_cons_succ]
        split <;> rfl
      · have hbyte : byteIs rest 0 '>' = false := by
          rw [← isPrefixOf_singleton (by decide), Bool.eq_false_iff]
          intro hprefix
          obtain ⟨tail, rfl⟩ := List.isPrefixOf_iff_prefix.1 hprefix
          exact htriple rfl
        have hprefix : ∀ tail, ¬ ('>' :: tail <+: rest) := by
          intro tail hprefix
          obtain ⟨after, rfl⟩ := hprefix
          exact htriple rfl
        have hspelled : spelledSize [['>', '>', '='], ['>', '>'], ['>', '='], ['>'], ['='], []]
            ('>' :: rest) = some (if byteIs rest 0 '=' then 2 else 1) := by
          rw [← isPrefixOf_singleton (by decide)]
          simp [spelledSize, hassign, hone, hprefix]
          split <;> rfl
        rw [hspelled]
        simp (disch := decide) [baseSize, assignableSize, byteIs_cons_zero, byteIs_cons_succ, hbyte]
        split <;> rfl
    · by_cases hd : d = '='
      · subst hd
        simp (disch := decide) [baseSize, assignableSize, spelledSize, byteIs_cons_zero,
          byteIs_cons_succ, hassign]
      · simp (disch := decide) [baseSize, assignableSize, spelledSize, byteIs_cons_zero,
          byteIs_cons_succ, hd, hshift, Ne.symm hd, Ne.symm hshift]

/-- An operator that an equals sign may follow. -/
theorem size_assigned {c : Char} (hc : c = '*' ∨ c = '/' ∨ c = '%' ∨ c = '^') (rest : Text) :
    baseSize (c :: rest) = some (spelledSize base (c :: rest)) := by
  have hone : c.utf8Size = 1 := by
    rcases hc with rfl | rfl | rfl | rfl <;> rfl
  have hassign : '='.utf8Size = 1 := rfl
  have hcontinuing : continuing c base = [['='], []] := by
    rcases hc with rfl | rfl | rfl | rfl <;> decide +kernel
  have hspelled : spelledSize [['='], []] rest = some (if byteIs rest 0 '=' then 1 else 0) := by
    rw [← isPrefixOf_singleton (by decide)]
    simp [spelledSize, hassign]
    split <;> rfl
  rw [spelledSize_cons not_mem_base, hcontinuing, hone, hspelled]
  rcases hc with rfl | rfl | rfl | rfl <;>
    simp (disch := decide) [baseSize, assignableSize, byteIs_cons_zero, byteIs_cons_succ]
  all_goals split <;> rfl

theorem size_single {c : Char} (hc : c = '?' ∨ c = ':' ∨ c = '~') (rest : Text) :
    baseSize (c :: rest) = some (spelledSize base (c :: rest)) := by
  have hone : c.utf8Size = 1 := by
    rcases hc with rfl | rfl | rfl <;> rfl
  have hcontinuing : continuing c base = [[]] := by
    rcases hc with rfl | rfl | rfl <;> decide +kernel
  rw [spelledSize_cons not_mem_base, hcontinuing, hone]
  rcases hc with rfl | rfl | rfl <;>
    simp (disch := decide) [baseSize, assignableSize, spelledSize, byteIs_cons_zero]

/-- The first characters of operators. -/
def firsts : List Char :=
  ['&', '|', '+', '-', '!', '=', '<', '>', '*', '/', '%', '^', '?', ':', '~']

theorem size_other {c : Char} (hc : c ∉ firsts) (rest : Text) :
    baseSize (c :: rest) = some (spelledSize base (c :: rest)) := by
  have hopens : (base.all fun spelling => spelling.head?.any firsts.contains) = true := by
    decide +kernel
  have hcontinuing : continuing c base = [] := by
    rw [continuing, List.filterMap_eq_nil_iff]
    intro spelling hmem
    have hfirst := List.all_eq_true.1 hopens spelling hmem
    cases spelling with
    | nil => rfl
    | cons d tail =>
      have hd : d ≠ c := by
        intro h
        rw [List.head?_cons, Option.any_some, List.contains_iff_mem, h] at hfirst
        exact hc hfirst
      exact if_neg hd
  rw [spelledSize_cons not_mem_base, hcontinuing]
  simp only [firsts, List.mem_cons, List.not_mem_nil, or_false, not_or] at hc
  simp (disch := decide) [baseSize, assignableSize, spelledSize, byteIs_cons_zero, hc]

theorem measures_base : Measures baseSize (oneOf base) := by
  intro text
  rw [← measures_oneOf]
  unfold Measure.oneOf
  cases text with
  | nil => decide +kernel
  | cons c rest =>
    by_cases hc : c ∈ firsts
    · simp only [firsts, List.mem_cons, List.not_mem_nil, or_false] at hc
      rcases hc with h | h | h | h | h | h | h | h | h | h | h | h | h | h | h
      · exact size_doubled (.inl h) rest
      · exact size_doubled (.inr (.inl h)) rest
      · exact size_doubled (.inr (.inr (.inl h))) rest
      · exact size_doubled (.inr (.inr (.inr h))) rest
      · exact size_compared (.inl h) rest
      · exact size_compared (.inr h) rest
      · rw [h]
        exact size_shiftedLeft rest
      · rw [h]
        exact size_shiftedRight rest
      · exact size_assigned (.inl h) rest
      · exact size_assigned (.inr (.inl h)) rest
      · exact size_assigned (.inr (.inr (.inl h))) rest
      · exact size_assigned (.inr (.inr (.inr h))) rest
      · exact size_single (.inl h) rest
      · exact size_single (.inr (.inl h)) rest
      · exact size_single (.inr (.inr h)) rest
    · exact size_other hc rest

end Operator

end EcmaLex
