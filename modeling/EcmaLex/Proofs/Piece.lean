import EcmaLex.Proofs.Dispatch

/-!
# Rules for the pieces of a template

The pieces with one opening have three rules of the same edition and guard: one for each way to end,
and one for a piece that does not end. Which of them answers is told by `body` alone.
-/

namespace EcmaLex

open Matcher Template

/-- The rules for the pieces with one opening. -/
def pieceRules (guard : Context → Bool) (opening : Char) (kindOf : Stop → TokenKind)
    (construct : Unfinished) : List Rule :=
  [ { since := .es2015
      guard
      matcher := piece opening .closing
      action := .emit (kindOf .closing) },
    { since := .es2015
      guard
      matcher := piece opening .interpolation
      action := .emit (kindOf .interpolation) },
    { since := .es2015
      guard
      matcher := toLineEnd [opening]
      action := .fail (.unfinished construct) } ]

/-- The kind of a piece that opens a template. -/
def firstKind : Stop → TokenKind
  | .closing => .template
  | .interpolation => .templateStart

/-- The kind of a piece that follows an interpolation. -/
def laterKind : Stop → TokenKind
  | .closing => .templateEnd
  | .interpolation => .templateMiddle

theorem templateRules_eq :
    templateRules = pieceRules (fun _ => true) backquote firstKind .template ++
      pieceRules (fun context => context.nesting.atInterpolationEnd) '}' laterKind
        .templateSection := rfl

variable {guard : Context → Bool} {opening : Char} {kindOf : Stop → TokenKind}
  {construct : Unfinished} {edition : Edition} {context : Context}

theorem firstOf_pieceRules_skip
    (h : ¬ (edition.includes .es2015 && guard context) = true) (text : Text) :
    firstOf (pieceRules guard opening kindOf construct) edition context text = none := by
  refine firstOf_eq_none_iff.2 fun rule hmem happlies => ?_
  simp only [pieceRules, List.mem_cons, List.not_mem_nil, or_false] at hmem
  rcases hmem with rfl | rfl | rfl
  · exact absurd happlies h
  · exact absurd happlies h
  · exact absurd happlies h

theorem firstOf_pieceRules_other {text : Text} (h : text.head? ≠ some opening) :
    firstOf (pieceRules guard opening kindOf construct) edition context text = none := by
  have hpiece : ∀ stop, piece opening stop text = none := by
    intro stop
    cases text with
    | nil => rfl
    | cons c rest => exact if_neg fun hc => h (by rw [hc]; rfl)
  have hline : toLineEnd [opening] text = none := by
    refine if_neg fun hprefix => ?_
    obtain ⟨rest, rfl⟩ := List.isPrefixOf_iff_prefix.1 hprefix
    exact h rfl
  refine firstOf_eq_none_iff.2 fun rule hmem _ => ?_
  simp only [pieceRules, List.mem_cons, List.not_mem_nil, or_false] at hmem
  rcases hmem with rfl | rfl | rfl
  · exact hpiece _
  · exact hpiece _
  · exact hline

theorem firstOf_pieceRules_body (guard : Context → Bool)
    (h : (edition.includes .es2015 && guard context) = true)
    {rest lexeme after : Text} {stop : Stop} (hbody : body rest = some (stop, lexeme, after)) :
    firstOf (pieceRules guard opening kindOf construct) edition context (opening :: rest) =
      some { action := .emit (kindOf stop), lexeme := opening :: lexeme, rest := after } := by
  have hpiece : ∀ other, piece opening other (opening :: rest) =
      if stop = other then some (opening :: lexeme, after) else none := by
    intro other
    rw [piece, if_pos rfl, hbody]
  simp only [firstOf, pieceRules, List.findSome?_cons, Rule.find?, Rule.applies, h, if_true, hpiece]
  cases stop <;> rfl

theorem firstOf_pieceRules_open (guard : Context → Bool)
    (h : (edition.includes .es2015 && guard context) = true)
    {rest : Text} (hbody : body rest = none) :
    firstOf (pieceRules guard opening kindOf construct) edition context (opening :: rest) =
      some { action := .fail (.unfinished construct)
             lexeme := (Text.splitLine (opening :: rest)).1
             rest := (Text.splitLine (opening :: rest)).2 } := by
  have hpiece : ∀ other, piece opening other (opening :: rest) = none := by
    intro other
    rw [piece, if_pos rfl, hbody]
  have hline : toLineEnd [opening] (opening :: rest) = some (Text.splitLine (opening :: rest)) :=
    if_pos (by simp)
  simp only [firstOf, pieceRules, List.findSome?_cons, Rule.find?, Rule.applies, h, if_true, hpiece,
    hline, Option.map_none, Option.map_some]

/-- At a backquote only the rules for the pieces that open a template answer. -/
theorem select_backquote (edition : Edition) (context : Context) (rest : Text) :
    select edition context (backquote :: rest) =
      firstOf (pieceRules (fun _ => true) backquote firstKind .template) edition context
        (backquote :: rest) := by
  have hopened : rulesOpenedBy backquote = templateRules := rfl
  have hbrace : (backquote :: rest).head? ≠ some '}' := by
    rw [List.head?_cons]
    decide
  rw [select_cons, hopened, templateRules_eq, firstOf_append, firstOf_pieceRules_other hbrace,
    Option.or_none]

end EcmaLex
