import EcmaLex.Lexeme.Basic

/-!
# Comments

A line comment, also in the two forms borrowed from markup, goes to the end of its line. A block
comment goes over any lines up to the first `*/`.
-/

namespace EcmaLex.Comment

open Matcher

/-- What is left of a block comment after its opening, up to and with its closing. -/
def blockBody : Matcher
  | [] => none
  | '*' :: '/' :: rest => some (['*', '/'], rest)
  | c :: rest => (blockBody rest).map (extend [c])

def block : Matcher
  | '/' :: '*' :: rest => (blockBody rest).map (extend ['/', '*'])
  | _ => none

def line : Matcher :=
  toLineEnd ['/', '/']

/-- The opening of a block comment and the rest of its line. -/
def unfinished : Matcher :=
  toLineEnd ['/', '*']

/-- The end mark of a markup comment and the rest of its line. -/
def markupClose : Matcher :=
  toLineEnd ['-', '-', '>']

/-- The start mark of a markup comment and the rest of its line. -/
def markupOpen : Matcher :=
  toLineEnd ['<', '!', '-', '-']

theorem lawful_blockBody : blockBody.Lawful := by
  intro text lexeme rest h
  fun_induction blockBody text generalizing lexeme with
  | case1 => simp at h
  | case2 =>
    simp only [Option.some.injEq, Prod.mk.injEq] at h
    obtain ⟨rfl, rfl⟩ := h
    simp
  | case3 c tail _ ih =>
    obtain ⟨found, hfound, rfl⟩ := map_extend_eq_some_iff.1 h
    exact ⟨by simp, by simp [(ih hfound).2]⟩

theorem lawful_block : block.Lawful := by
  intro text lexeme rest h
  unfold block at h
  split at h
  · obtain ⟨found, hfound, rfl⟩ := map_extend_eq_some_iff.1 h
    exact ⟨by simp, by simp [(lawful_blockBody hfound).2]⟩
  · simp at h

theorem lawful_line : line.Lawful :=
  lawful_toLineEnd ['/'] (by decide)

theorem lawful_unfinished : unfinished.Lawful :=
  lawful_toLineEnd ['*'] (by decide)

theorem lawful_markupClose : markupClose.Lawful :=
  lawful_toLineEnd ['-', '>'] (by decide)

theorem lawful_markupOpen : markupOpen.Lawful :=
  lawful_toLineEnd ['!', '-', '-'] (by decide)

end EcmaLex.Comment
