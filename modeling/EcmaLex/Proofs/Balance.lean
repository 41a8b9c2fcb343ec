import EcmaLex.Proofs.Nesting
import Mathlib.Data.List.Induction

/-!
# Braces of a text

Whether the braces of a text are balanced is read off the counts of its prefixes. A counter of the nesting
only knows them up to its size: `Closes` is what it can tell, and says the same wherever it can hold what is
open, `balanced_iff_closes`. A token that steps over the braces one at a time keeps the nesting a count of the
braces read, `BraceStep.counts`.
-/

namespace EcmaLex

/-- Whether a character is a brace. -/
def isBrace (c : Char) : Bool :=
  c == '{' || c == '}'

/-- Nowhere are there more right braces than left braces before. -/
def Balanced (text : Text) : Prop :=
  ∀ before, before <+: text → before.count '}' ≤ before.count '{'

/-- No right brace stands where a counter of the left braces before it, less the right braces, is zero. -/
def Closes (text : Text) : Prop :=
  ∀ before, before ++ ['}'] <+: text → before.count '{' % 2 ^ 32 ≠ before.count '}' % 2 ^ 32

/-- Somewhere more left braces are open than a counter can hold. -/
def Overflows (text : Text) : Prop :=
  ∃ before, before <+: text ∧ before.count '}' + 2 ^ 32 ≤ before.count '{'

theorem Overflows.le_length {text : Text} (h : Overflows text) : 2 ^ 32 ≤ text.length := by
  obtain ⟨before, hbefore, hover⟩ := h
  have hcount : before.count '{' ≤ before.length := List.count_le_length
  have hlength := hbefore.length_le
  omega

theorem Overflows.of_prefix {text before : Text} (h : Overflows before) (hbefore : before <+: text) :
    Overflows text := by
  obtain ⟨first, hfirst, hover⟩ := h
  exact ⟨first, hfirst.trans hbefore, hover⟩

theorem closes_concat {text : Text} {c : Char} :
    Closes (text ++ [c]) ↔
      Closes text ∧ (c = '}' → text.count '{' % 2 ^ 32 ≠ text.count '}' % 2 ^ 32) := by
  constructor
  · intro h
    refine ⟨fun before hbefore => h before (hbefore.trans (List.prefix_append _ _)), ?_⟩
    rintro rfl
    exact h text (List.prefix_refl _)
  · rintro ⟨h, hc⟩ before hbefore
    rcases List.prefix_concat_iff.1 hbefore with heq | hwithin
    · obtain ⟨rfl, hlast⟩ := List.append_inj' heq rfl
      exact hc (List.cons.inj hlast).1.symm
    · exact h before hwithin

theorem Closes.append {text : Text} (h : Closes text) {lexeme : Text}
    (hlexeme : ∀ c ∈ lexeme, isBrace c = false) : Closes (text ++ lexeme) := by
  induction lexeme generalizing text with
  | nil => rwa [List.append_nil]
  | cons c lexeme ih =>
    have hc := hlexeme c List.mem_cons_self
    have hnext : Closes (text ++ [c]) := by
      refine closes_concat.2 ⟨h, ?_⟩
      rintro rfl
      cases hc
    have hlater := ih hnext fun d hd => hlexeme d (List.mem_cons_of_mem _ hd)
    rwa [List.append_assoc, List.singleton_append] at hlater

/-- As long as the counter can hold what is open, it is zero only where nothing is. -/
theorem balanced_iff_closes {text : Text} (hfits : ¬ Overflows text) :
    Balanced text ↔ Closes text := by
  have hbelow : ∀ before, before <+: text → before.count '{' < before.count '}' + 2 ^ 32 :=
    fun before hbefore => Nat.not_le.1 fun hover => hfits ⟨before, hbefore, hover⟩
  constructor
  · intro h before hbefore
    have hright := h _ hbefore
    have hleft := hbelow _ ((List.prefix_append _ _).trans hbefore)
    have hone : ['}'].count '}' = 1 := rfl
    have hnone : ['}'].count '{' = 0 := rfl
    rw [List.count_append, List.count_append, hone, hnone] at hright
    omega
  · intro h before
    induction before using List.reverseRecOn with
    | nil => exact fun _ => Nat.le_refl _
    | append_singleton before c ih =>
      intro hbefore
      have hwithin : before <+: text := (List.prefix_append _ _).trans hbefore
      have hle := ih hwithin
      have hleft := hbelow _ hwithin
      rw [List.count_append, List.count_append]
      by_cases hc : c = '}'
      · subst hc
        have hopen := h before hbefore
        have hone : ['}'].count '}' = 1 := rfl
        omega
      · have hnone : [c].count '}' = 0 := List.count_eq_zero.2 (by simpa using Ne.symm hc)
        omega

theorem count_rightBrace_leftBraces (n : Nat) : (List.replicate n '{').count '}' = 0 :=
  List.count_eq_zero.2 fun hmem => absurd (List.eq_of_mem_replicate hmem) (by decide)

/-- Left braces and one right brace behind them are balanced. -/
theorem balanced_leftBraces {n : Nat} (hne : n ≠ 0) :
    Balanced (List.replicate n '{' ++ ['}']) := by
  have hright := count_rightBrace_leftBraces n
  intro before hbefore
  rcases List.prefix_concat_iff.1 hbefore with rfl | hwithin
  · have hone : ['}'].count '}' = 1 := rfl
    rw [List.count_append, List.count_append, List.count_replicate_self, hright, hone]
    omega
  · have hnone := hwithin.sublist.count_le '}'
    omega

/-- Where the left braces start the counter over, it does not know them. -/
theorem not_closes_leftBraces {n : Nat} (hover : n % 2 ^ 32 = 0) :
    ¬ Closes (List.replicate n '{' ++ ['}']) := by
  intro hcloses
  refine hcloses (List.replicate n '{') (List.prefix_refl _) ?_
  rw [List.count_replicate_self, count_rightBrace_leftBraces, hover, Nat.zero_mod]

/-- What one more token does to the braces of the text and to the nesting. -/
inductive BraceStep (nesting : Nesting) : TokenKind → Text → Prop where
  | opens : BraceStep nesting .leftBrace ['{']
  | closes (h : nesting.top ≠ 0) : BraceStep nesting .rightBrace ['}']
  | other {kind : TokenKind} {lexeme : Text} (hkind : Context.nestingAfter nesting kind = nesting)
      (hlexeme : ∀ c ∈ lexeme, isBrace c = false) : BraceStep nesting kind lexeme

/-- The nesting counts the braces of the text so far, as far as a counter can tell. -/
structure Counts (done : Text) (nesting : Nesting) : Prop where
  outer : nesting.outer = []
  top : (nesting.top.toNat + done.count '}') % 2 ^ 32 = done.count '{' % 2 ^ 32

theorem Counts.top_eq_zero_iff {done : Text} {nesting : Nesting} (h : Counts done nesting) :
    nesting.top = 0 ↔ done.count '{' % 2 ^ 32 = done.count '}' % 2 ^ 32 := by
  have htop := h.top
  have hbelow : nesting.top.toNat < 2 ^ 32 := nesting.top.toNat_lt
  rw [← UInt32.toNat_inj]
  show nesting.top.toNat = 0 ↔ _
  omega

/-- A token that steps over the braces one at a time keeps the count. -/
theorem BraceStep.counts {nesting : Nesting} {kind : TokenKind} {lexeme done : Text}
    (hstep : BraceStep nesting kind lexeme) (h : Counts done nesting) (hcloses : Closes done) :
    Counts (done ++ lexeme) (Context.nestingAfter nesting kind) ∧ Closes (done ++ lexeme) := by
  have htop := h.top
  cases hstep with
  | opens =>
    refine ⟨⟨h.outer, ?_⟩, ?_⟩
    · have hleft : ['{'].count '{' = 1 := rfl
      have hright : ['{'].count '}' = 0 := rfl
      show ((nesting.top + 1).toNat + _) % 2 ^ 32 = _
      rw [UInt32.toNat_add, List.count_append, List.count_append, hleft, hright]
      show ((nesting.top.toNat + 1) % 2 ^ 32 + _) % 2 ^ 32 = _
      omega
    · exact closes_concat.2 ⟨hcloses, fun heq => by cases heq⟩
  | closes hne =>
    have hpos : nesting.top.toNat ≠ 0 := fun hzero => hne (UInt32.toNat_inj.1 hzero)
    have hopen : done.count '{' % 2 ^ 32 ≠ done.count '}' % 2 ^ 32 :=
      fun heq => hne (h.top_eq_zero_iff.2 heq)
    refine ⟨⟨(Nesting.outer_closeBrace nesting).trans h.outer, ?_⟩,
      closes_concat.2 ⟨hcloses, fun _ => hopen⟩⟩
    have hleft : ['}'].count '{' = 0 := rfl
    have hright : ['}'].count '}' = 1 := rfl
    show (nesting.closeBrace.top.toNat + _) % 2 ^ 32 = _
    rw [Nesting.toNat_top_closeBrace hne, List.count_append, List.count_append, hleft, hright]
    omega
  | other hkind hlexeme =>
    have hzero : ∀ brace, isBrace brace = true → lexeme.count brace = 0 := by
      intro brace hbrace
      refine List.count_eq_zero.2 fun hmem => ?_
      rw [hlexeme brace hmem] at hbrace
      cases hbrace
    refine ⟨?_, hcloses.append hlexeme⟩
    rw [hkind]
    refine ⟨h.outer, ?_⟩
    rw [List.count_append, List.count_append, hzero '{' rfl, hzero '}' rfl]
    exact htop

end EcmaLex
