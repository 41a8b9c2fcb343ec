import EcmaLex.Lexeme.Basic

/-!
# Pieces of templates

A template is read in pieces. A piece opens with the backquote of the template or with the right
brace that ends an interpolation. It goes over any characters, line terminators among them and each
escaped one together with its backslash, and ends right after the first backquote or the first
dollar and left brace.
-/

namespace EcmaLex.Template

open Matcher

def backquote : Char := '\x60'

/-- How a piece of a template ends. -/
inductive Stop where
  /-- At the closing backquote. -/
  | closing
  /-- At the opening of an interpolation. -/
  | interpolation
  deriving DecidableEq, Repr

/-- The characters of a piece after its opening, up to and with what ends it. -/
def body : Text → Option (Stop × Text × Text)
  | [] => none
  | '\\' :: [] => none
  | '\\' :: c :: rest => (body rest).map fun (stop, found) => (stop, extend ['\\', c] found)
  | '$' :: '{' :: rest => some (.interpolation, ['$', '{'], rest)
  | c :: rest =>
    if c = backquote then some (.closing, [c], rest)
    else (body rest).map fun (stop, found) => (stop, extend [c] found)

/-- A piece with the given opening that ends in the given way. -/
def piece (opening : Char) (stop : Stop) : Matcher
  | [] => none
  | c :: rest =>
    if c = opening then
      match body rest with
      | some (found, lexeme, rest) => if found = stop then some (c :: lexeme, rest) else none
      | none => none
    else none

/-- A template without interpolation. -/
def whole : Matcher :=
  piece backquote .closing

/-- From the opening backquote to the first interpolation. -/
def head : Matcher :=
  piece backquote .interpolation

/-- From the end of an interpolation to the next one. -/
def middle : Matcher :=
  piece '}' .interpolation

/-- From the end of the last interpolation to the closing backquote. -/
def tail : Matcher :=
  piece '}' .closing

/-- An opening backquote and the rest of its line. -/
def unfinished : Matcher :=
  toLineEnd [backquote]

/-- The right brace that ends an interpolation and the rest of its line. -/
def unfinishedSection : Matcher :=
  toLineEnd ['}']

theorem body_char {c : Char} {rest : Text} (hc : c ≠ '\\') (hopen : c = '$' → rest.head? ≠ some '{') :
    body (c :: rest) =
      if c = backquote then some (.closing, [c], rest)
      else (body rest).map fun found => (found.1, extend [c] found.2) := by
  rw [body]
  · exact fun h _ => hc h
  · exact fun _ _ h _ => hc h
  · exact fun tail h htail => hopen h (by rw [htail]; rfl)

theorem append_of_body {text lexeme rest : Text} {stop : Stop}
    (h : body text = some (stop, lexeme, rest)) : lexeme ++ rest = text := by
  fun_induction body text generalizing lexeme with
  | case1 => simp at h
  | case2 => simp at h
  | case3 c tail ih =>
    obtain ⟨⟨found, left, right⟩, hfound, he⟩ := Option.map_eq_some_iff.1 h
    simp only [extend_mk, Prod.mk.injEq] at he
    obtain ⟨rfl, rfl, rfl⟩ := he
    simp [ih hfound]
  | case4 =>
    simp only [Option.some.injEq, Prod.mk.injEq] at h
    obtain ⟨-, rfl, rfl⟩ := h
    simp
  | case5 =>
    simp only [Option.some.injEq, Prod.mk.injEq] at h
    obtain ⟨-, rfl, rfl⟩ := h
    simp
  | case6 c tail _ _ _ _ ih =>
    obtain ⟨⟨found, left, right⟩, hfound, he⟩ := Option.map_eq_some_iff.1 h
    simp only [extend_mk, Prod.mk.injEq] at he
    obtain ⟨rfl, rfl, rfl⟩ := he
    simp [ih hfound]

theorem lawful_piece (opening : Char) (stop : Stop) : (piece opening stop).Lawful := by
  intro text lexeme rest h
  unfold piece at h
  split at h
  · simp at h
  · split at h
    · split at h
      · next hbody =>
        simp only [Option.ite_none_right_eq_some, Option.some.injEq, Prod.mk.injEq] at h
        obtain ⟨-, rfl, rfl⟩ := h
        exact ⟨by simp, by simp [append_of_body hbody]⟩
      · simp at h
    · simp at h

theorem lawful_unfinished : unfinished.Lawful :=
  lawful_toLineEnd [] (by decide)

theorem lawful_unfinishedSection : unfinishedSection.Lawful :=
  lawful_toLineEnd [] (by decide)

end EcmaLex.Template
