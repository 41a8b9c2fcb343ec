import EcmaLex.Lexeme.Basic

/-!
# Matchers and the forms of what they read

Of the pieces of one form that stand at the start of a text there is at most one longest, and a matcher
that finds it finds nothing else: `Matcher.Munches.eq_some_iff`. The longest run of a class is such a match,
and so is the first of several spellings that stands there, if none of them begins a later one.
Where no text begins with two pieces of the form, a matcher can find every one: `Matcher.Recognizes`.
-/

namespace EcmaLex

open Matcher

/-- Of the pieces of one form that stand at the start of a text, the longest, and what follows it. -/
structure Text.Longest (form : Text → Prop) (text lexeme rest : Text) : Prop where
  holds : form lexeme
  append_eq : lexeme ++ rest = text
  length_le : ∀ other, form other → other <+: text → other.length ≤ lexeme.length

/-- One or more characters of a class. -/
structure Text.IsRun (p : Char → Bool) (text : Text) : Prop where
  ne_nil : text ≠ []
  all : ∀ c ∈ text, p c = true

theorem Text.Longest.unique {form : Text → Prop} {text lexeme rest other after : Text}
    (h : Longest form text lexeme rest) (hother : Longest form text other after) :
    lexeme = other ∧ rest = after := by
  have hle := h.length_le other hother.holds ⟨after, hother.append_eq⟩
  have hge := hother.length_le lexeme h.holds ⟨rest, h.append_eq⟩
  exact List.append_inj (h.append_eq.trans hother.append_eq.symm) (Nat.le_antisymm hge hle)

/-- A piece of a class at the start of a text stands in the longest run of the class. -/
theorem Text.length_le_takeWhile {p : Char → Bool} {other text : Text}
    (hall : ∀ c ∈ other, p c = true) (hbegins : other <+: text) :
    other.length ≤ (text.takeWhile p).length := by
  obtain ⟨rest, rfl⟩ := hbegins
  rw [List.takeWhile_append_of_pos hall, List.length_append]
  exact Nat.le_add_right _ _

namespace Matcher

/-- The matcher finds the longest piece of the form, and finds nothing where none stands. -/
structure Munches (matcher : Matcher) (form : Text → Prop) : Prop where
  longest : ∀ {text lexeme rest : Text}, matcher text = some (lexeme, rest) →
    text.Longest form lexeme rest
  nothing : ∀ {text : Text}, matcher text = none → ∀ lexeme, form lexeme → ¬ lexeme <+: text

variable {matcher : Matcher} {form : Text → Prop} {text lexeme rest : Text}

theorem Munches.eq_some_iff (h : matcher.Munches form) :
    matcher text = some (lexeme, rest) ↔ text.Longest form lexeme rest := by
  refine ⟨h.longest, fun hlongest => ?_⟩
  cases hmatch : matcher text with
  | none => exact absurd ⟨rest, hlongest.append_eq⟩ (h.nothing hmatch lexeme hlongest.holds)
  | some found =>
    obtain ⟨rfl, rfl⟩ := (h.longest hmatch).unique hlongest
    rfl

theorem Munches.eq_none_iff (h : matcher.Munches form) :
    matcher text = none ↔ ∀ lexeme, form lexeme → ¬ lexeme <+: text := by
  refine ⟨h.nothing, fun hnothing => ?_⟩
  cases hmatch : matcher text with
  | none => rfl
  | some found =>
    have hlongest := h.longest hmatch
    exact absurd ⟨_, hlongest.append_eq⟩ (hnothing _ hlongest.holds)

/-- The matcher finds every piece of the form, and nothing else. -/
def Recognizes (matcher : Matcher) (form : Text → Prop) : Prop :=
  ∀ ⦃text lexeme rest : Text⦄,
    matcher text = some (lexeme, rest) ↔ form lexeme ∧ lexeme ++ rest = text

/-- No text begins with two pieces of a form that a matcher recognizes. -/
theorem Recognizes.unique (h : matcher.Recognizes form) {other : Text} (hform : form lexeme)
    (hother : form other) (hbegins : lexeme <+: text) (hbeginsOther : other <+: text) :
    lexeme = other := by
  obtain ⟨rest, happend⟩ := hbegins
  obtain ⟨after, happendOther⟩ := hbeginsOther
  have hfound := h.2 ⟨hform, happend⟩
  rw [h.2 ⟨hother, happendOther⟩] at hfound
  exact (Prod.mk.inj (Option.some.inj hfound)).1.symm

theorem Recognizes.munches (h : matcher.Recognizes form) : matcher.Munches form := by
  constructor
  · intro text lexeme rest hmatch
    obtain ⟨hform, happend⟩ := h.1 hmatch
    refine ⟨hform, happend, fun other hother hbegins => ?_⟩
    exact Nat.le_of_eq (congrArg List.length (h.unique hother hform hbegins ⟨rest, happend⟩))
  · rintro text hnone lexeme hform ⟨rest, happend⟩
    rw [h.2 ⟨hform, happend⟩] at hnone
    cases hnone

theorem munches_manyOf (p : Char → Bool) : (manyOf p).Munches (Text.IsRun p) := by
  constructor
  · intro text lexeme rest h
    obtain ⟨hne, hrun⟩ := Option.ite_none_left_eq_some.1 h
    obtain ⟨rfl, rfl⟩ := Prod.mk.inj (Option.some.inj hrun)
    refine ⟨⟨by simpa using hne, List.all_eq_true.1 List.all_takeWhile⟩, Text.run_append p text, ?_⟩
    exact fun other hother => Text.length_le_takeWhile hother.all
  · intro text h lexeme hform hbegins
    rw [manyOf_eq_none_iff] at h
    obtain ⟨c, tail, rfl⟩ := List.exists_cons_of_ne_nil hform.ne_nil
    obtain ⟨rest, rfl⟩ := hbegins
    rw [List.cons_append, List.head?_cons, Option.any_some, hform.all c List.mem_cons_self] at h
    cases h

/-- Of spellings of which none begins a later one, the first that stands at the start of a text is the
longest that does. -/
theorem munches_oneOf {spellings : List Text}
    (hordered : spellings.Pairwise fun earlier later => ¬ earlier <+: later) :
    (oneOf spellings).Munches (· ∈ spellings) := by
  constructor
  · intro text lexeme rest h
    induction spellings with
    | nil => cases h
    | cons first spellings ih =>
      obtain ⟨hfirst, hlater⟩ := List.pairwise_cons.1 hordered
      rw [oneOf, List.findSome?_cons] at h
      split at h
      · next found hfound =>
        obtain rfl := Option.some.inj h
        obtain ⟨rfl, happend⟩ := exactly_eq_some_iff.1 hfound
        refine ⟨List.mem_cons_self, happend, fun other hother hbegins => ?_⟩
        refine Nat.le_of_not_lt fun hlonger => ?_
        -- Of two spellings that begin one text the shorter begins the other.
        have hprefix : lexeme <+: other :=
          List.prefix_of_prefix_length_le ⟨rest, happend⟩ hbegins (Nat.le_of_lt hlonger)
        rcases List.mem_cons.1 hother with rfl | hother
        · exact Nat.lt_irrefl _ hlonger
        · exact hfirst other hother hprefix
      · next hnone =>
        obtain ⟨hmem, happend, hlongest⟩ := ih hlater h
        refine ⟨List.mem_cons_of_mem _ hmem, happend, fun other hother hbegins => ?_⟩
        rcases List.mem_cons.1 hother with rfl | hother
        · exact absurd hbegins (exactly_eq_none_iff.1 hnone)
        · exact hlongest other hother hbegins
  · intro text h lexeme hmem
    exact exactly_eq_none_iff.1 (List.findSome?_eq_none_iff.1 h lexeme hmem)

end Matcher

/-- What stands behind a longest run is none of its class. -/
theorem Text.Longest.head?_eq {p : Char → Bool} {text lexeme rest : Text}
    (h : text.Longest (IsRun p) lexeme rest) : rest.head?.any p = false := by
  have hmatch := (munches_manyOf p).eq_some_iff.2 h
  rw [← h.append_eq, manyOf_eq_some_iff] at hmatch
  exact (run_eq_iff.1 hmatch.2).2

end EcmaLex
