import EcmaLex.Text.Lines

/-!
# Matchers

A matcher looks at the start of a text. Where it matches, it gives the lexeme found there and the
text after it. A lawful matcher only gives lexemes that are nonempty and really stand there; every
matcher of the language is lawful, and the combinators below keep it so.
-/

namespace EcmaLex

/-- Gives the lexeme at the start of a text and the text after it. -/
abbrev Matcher := Text → Option (Text × Text)

namespace Matcher

/-- A match seen from further back, after `read` has been read as well. -/
def extend (read : Text) (found : Text × Text) : Text × Text :=
  (read ++ found.1, found.2)

/-- One character of a class. -/
def one (p : Char → Bool) : Matcher
  | [] => none
  | c :: rest => if p c then some ([c], rest) else none

/-- The longest run of characters of a class, if it is not empty. -/
def manyOf (p : Char → Bool) : Matcher := fun text =>
  if (text.takeWhile p).isEmpty then none else some (Text.run p text)

/-- The given spelling. -/
def exactly (spelling : Text) : Matcher := fun text =>
  if spelling.isPrefixOf text then some (spelling, text.drop spelling.length) else none

/-- The first of the given spellings that stands here. -/
def oneOf (spellings : List Text) : Matcher := fun text =>
  spellings.findSome? fun spelling => exactly spelling text

/-- The given opening and whatever follows it on its line. -/
def toLineEnd (opening : Text) : Matcher := fun text =>
  if opening.isPrefixOf text then some text.splitLine else none

/-- What `first` matches, or else what `second` matches. -/
def orElse (first second : Matcher) : Matcher := fun text =>
  match first text with
  | some found => some found
  | none => second text

/-- What `first` matches, directly followed by what `second` matches. -/
def andThen (first second : Matcher) : Matcher := fun text =>
  match first text with
  | some (lexeme, rest) => (second rest).map (extend lexeme)
  | none => none

/-- What `matcher` matches, unless a name or a digit goes on there. -/
def standalone (matcher : Matcher) (goesOn : Char → Bool) : Matcher := fun text =>
  match matcher text with
  | some (lexeme, rest) => if rest.head?.any goesOn then none else some (lexeme, rest)
  | none => none

/-- Every match is a nonempty piece of the text and what follows it. -/
def Lawful (matcher : Matcher) : Prop :=
  ∀ ⦃text lexeme rest : Text⦄, matcher text = some (lexeme, rest) →
    lexeme ≠ [] ∧ lexeme ++ rest = text

@[simp] theorem extend_mk (read lexeme rest : Text) :
    extend read (lexeme, rest) = (read ++ lexeme, rest) := rfl

theorem map_extend_eq_some_iff {read lexeme rest : Text} {found : Option (Text × Text)} :
    found.map (extend read) = some (lexeme, rest) ↔
      ∃ tail, found = some (tail, rest) ∧ read ++ tail = lexeme := by
  constructor
  · intro h
    obtain ⟨⟨tail, after⟩, hf, he⟩ := Option.map_eq_some_iff.1 h
    simp only [extend_mk, Prod.mk.injEq] at he
    obtain ⟨rfl, rfl⟩ := he
    exact ⟨tail, hf, rfl⟩
  · rintro ⟨tail, rfl, rfl⟩
    rfl

theorem Lawful.length_lt {matcher : Matcher} (lawful : matcher.Lawful) {text lexeme rest : Text}
    (h : matcher text = some (lexeme, rest)) : rest.length < text.length := by
  obtain ⟨hne, rfl⟩ := lawful h
  have := List.length_pos_iff.2 hne
  simp only [List.length_append]
  omega

theorem lawful_one (p : Char → Bool) : (one p).Lawful := by
  intro text lexeme rest h
  cases text with
  | nil => simp [one] at h
  | cons c text =>
    simp only [one, Option.ite_none_right_eq_some, Option.some.injEq, Prod.mk.injEq] at h
    obtain ⟨-, rfl, rfl⟩ := h
    simp

theorem one_eq_none_iff {p : Char → Bool} {text : Text} :
    one p text = none ↔ text.head?.any p = false := by
  cases text with
  | nil => simp [one]
  | cons c text => simp [one]

theorem manyOf_eq_none_iff {p : Char → Bool} {text : Text} :
    manyOf p text = none ↔ text.head?.any p = false := by
  cases text with
  | nil => simp [manyOf]
  | cons c text =>
    cases hc : p c with
    | false => simp [manyOf, hc]
    | true => simp [manyOf, hc]

theorem manyOf_eq_some_iff {p : Char → Bool} {lexeme rest : Text} :
    manyOf p (lexeme ++ rest) = some (lexeme, rest) ↔
      lexeme ≠ [] ∧ Text.run p (lexeme ++ rest) = (lexeme, rest) := by
  simp only [manyOf, Option.ite_none_left_eq_some, Option.some.injEq, List.isEmpty_iff]
  refine and_congr_left fun hrun => ?_
  rw [show (lexeme ++ rest).takeWhile p = lexeme from congrArg Prod.fst hrun]

theorem lawful_manyOf (p : Char → Bool) : (manyOf p).Lawful := by
  intro text lexeme rest h
  simp only [manyOf, Option.ite_none_left_eq_some, Option.some.injEq] at h
  obtain ⟨hne, hrun⟩ := h
  refine ⟨?_, Text.append_of_run hrun⟩
  rintro rfl
  simp_all [Text.run]

theorem exactly_eq_some_iff {spelling text lexeme rest : Text} :
    exactly spelling text = some (lexeme, rest) ↔ lexeme = spelling ∧ spelling ++ rest = text := by
  simp only [exactly, Option.ite_none_right_eq_some, List.isPrefixOf_iff_prefix, Option.some.injEq,
    Prod.mk.injEq]
  constructor
  · rintro ⟨⟨tail, rfl⟩, rfl, rfl⟩
    simp
  · rintro ⟨rfl, rfl⟩
    simp

theorem exactly_eq_none_iff {spelling text : Text} :
    exactly spelling text = none ↔ ¬ spelling <+: text := by
  simp [exactly, List.isPrefixOf_iff_prefix]

theorem lawful_exactly {spelling : Text} (hne : spelling ≠ []) : (exactly spelling).Lawful := by
  intro text lexeme rest h
  obtain ⟨rfl, rfl⟩ := exactly_eq_some_iff.1 h
  exact ⟨hne, rfl⟩

theorem lawful_oneOf {spellings : List Text} (hne : [] ∉ spellings) :
    (oneOf spellings).Lawful := by
  intro text lexeme rest h
  obtain ⟨spelling, hmem, hs⟩ := List.exists_of_findSome?_eq_some h
  exact lawful_exactly (fun he => hne (he ▸ hmem)) hs

theorem toLineEnd_eq_none_iff {opening text : Text} :
    toLineEnd opening text = none ↔ ¬ opening <+: text := by
  simp [toLineEnd, List.isPrefixOf_iff_prefix]

theorem lawful_toLineEnd {c : Char} (opening : Text) (hc : isLineBreak c = false) :
    (toLineEnd (c :: opening)).Lawful := by
  intro text lexeme rest h
  simp only [toLineEnd, Option.ite_none_right_eq_some, List.isPrefixOf_iff_prefix] at h
  obtain ⟨⟨tail, rfl⟩, hs⟩ := h
  have happend := Text.append_of_run (Option.some.inj hs)
  refine ⟨?_, happend⟩
  rintro rfl
  simp [Text.splitLine, Text.run, hc] at hs

theorem Lawful.orElse {first second : Matcher} (hf : first.Lawful) (hs : second.Lawful) :
    (first.orElse second).Lawful := by
  intro text lexeme rest h
  simp only [Matcher.orElse] at h
  split at h
  · next found he =>
    obtain rfl := Option.some.inj h
    exact hf he
  · exact hs h

theorem Lawful.andThen {first second : Matcher} (hf : first.Lawful) (hs : second.Lawful) :
    (first.andThen second).Lawful := by
  intro text lexeme rest h
  simp only [Matcher.andThen] at h
  split at h
  · next head tail he =>
    obtain ⟨found, hfound, rfl⟩ := map_extend_eq_some_iff.1 h
    obtain ⟨hne, rfl⟩ := hf he
    obtain ⟨-, rfl⟩ := hs hfound
    exact ⟨by simp [hne], by simp⟩
  · simp at h

/-- What stands alone is what is matched where nothing goes on with it. -/
theorem standalone_eq_some_iff {matcher : Matcher} {goesOn : Char → Bool} {text lexeme rest : Text} :
    matcher.standalone goesOn text = some (lexeme, rest) ↔
      matcher text = some (lexeme, rest) ∧ rest.head?.any goesOn = false := by
  unfold standalone
  split
  · next head tail hmatch =>
    simp only [Option.ite_none_left_eq_some, Option.some.injEq, Prod.mk.injEq, Bool.not_eq_true,
      hmatch]
    constructor
    · rintro ⟨halone, rfl, rfl⟩
      exact ⟨⟨rfl, rfl⟩, halone⟩
    · rintro ⟨⟨rfl, rfl⟩, halone⟩
      exact ⟨halone, rfl, rfl⟩
  · next hnone => simp [hnone]

theorem Lawful.standalone {matcher : Matcher} (lawful : matcher.Lawful) (goesOn : Char → Bool) :
    (matcher.standalone goesOn).Lawful := by
  intro text lexeme rest h
  exact lawful (standalone_eq_some_iff.1 h).1

end Matcher

/-- A character with which no escape begins, as the readers tell it, is no backslash. -/
theorem not_escape {c : Char} {rest : Text} (hend : c = '\\' → rest = [] → False)
    (hescape : ∀ d tail, c = '\\' → rest = d :: tail → False) : c ≠ '\\' := by
  intro h
  cases rest with
  | nil => exact hend h rfl
  | cons d rest => exact hescape d rest h rfl

end EcmaLex
