import EcmaLex.Lexeme.Basic

/-!
# Regular expressions

A regular expression stands between two slashes on one line and is followed by its flags. A slash in
a bracketed class does not close it. A bracket that opens no class, because the class is not closed
on its line or holds a bad escape, is an ordinary character.
-/

namespace EcmaLex.RegExp

open Matcher

/-- What is left of a class after its opening bracket, up to and with its closing bracket. -/
def classBody : Matcher
  | [] => none
  | '\\' :: [] => none
  | '\\' :: c :: rest =>
    if isLineBreak c then none else (classBody rest).map (extend ['\\', c])
  | c :: rest =>
    if c = ']' then some ([c], rest)
    else if isLineTerminator c then none
    else (classBody rest).map (extend [c])

theorem lawful_classBody : classBody.Lawful := by
  intro text lexeme rest h
  fun_induction classBody text generalizing lexeme with
  | case1 => simp at h
  | case2 => simp at h
  | case3 => simp at h
  | case4 c tail _ ih =>
    obtain ⟨found, hfound, rfl⟩ := map_extend_eq_some_iff.1 h
    exact ⟨by simp, by simp [(ih hfound).2]⟩
  | case5 =>
    simp only [Option.some.injEq, Prod.mk.injEq] at h
    obtain ⟨rfl, rfl⟩ := h
    simp
  | case6 => simp at h
  | case7 c tail _ _ _ _ ih =>
    obtain ⟨found, hfound, rfl⟩ := map_extend_eq_some_iff.1 h
    exact ⟨by simp, by simp [(ih hfound).2]⟩

/-- What is left of the expression after its opening slash, up to and with its closing slash. -/
def body (text : Text) : Option (Text × Text) :=
  match text with
  | [] => none
  | '\\' :: [] => none
  | '\\' :: c :: rest => if isLineBreak c then none else (body rest).map (extend ['\\', c])
  | '[' :: rest =>
    match _h : classBody rest with
    | some (members, rest) => (body rest).map (extend ('[' :: members))
    | none => (body rest).map (extend ['['])
  | c :: rest =>
    if c = '/' then some ([c], rest)
    else if isLineTerminator c then none
    else (body rest).map (extend [c])
termination_by text.length
decreasing_by
  all_goals simp only [List.length_cons]
  all_goals try have := lawful_classBody.length_lt _h
  all_goals omega

/-- A whole regular expression with its flags. Something must stand between the slashes. -/
def regExp : Matcher
  | '/' :: '/' :: _ => none
  | '/' :: rest =>
    match body rest with
    | some (lexeme, rest) => some (extend ('/' :: lexeme) (Text.run Char.isAlpha rest))
    | none => none
  | _ => none

/-- An opening slash and the rest of its line. -/
def unfinished : Matcher :=
  toLineEnd ['/']

theorem classBody_char {c : Char} {rest : Text} (hc : c ≠ '\\') :
    classBody (c :: rest) =
      if c = ']' then some ([c], rest)
      else if isLineTerminator c then none
      else (classBody rest).map (extend [c]) := by
  rw [classBody]
  · exact fun h _ => hc h
  · exact fun _ _ h _ => hc h

theorem body_char {c : Char} {rest : Text} (hc : c ≠ '\\') (hbracket : c ≠ '[') :
    body (c :: rest) =
      if c = '/' then some ([c], rest)
      else if isLineTerminator c then none
      else (body rest).map (extend [c]) := by
  rw [body]
  · exact fun h _ => hc h
  · exact fun _ _ h _ => hc h
  · exact hbracket

theorem body_class {rest members after : Text} (h : classBody rest = some (members, after)) :
    body ('[' :: rest) = (body after).map (extend ('[' :: members)) := by
  rw [body]
  split
  · next heq =>
    rw [h] at heq
    obtain ⟨rfl, rfl⟩ := Prod.mk.inj (Option.some.inj heq)
    rfl
  · next heq => rw [h] at heq; cases heq

theorem body_bracket {rest : Text} (h : classBody rest = none) :
    body ('[' :: rest) = (body rest).map (extend ['[']) := by
  rw [body]
  split
  · next heq => rw [h] at heq; cases heq
  · rfl

theorem regExp_of_head {rest : Text} (h : rest.head? ≠ some '/') :
    regExp ('/' :: rest) =
      (body rest).map fun found =>
        extend ('/' :: found.1) (Text.run Char.isAlpha found.2) := by
  unfold regExp
  split
  · next heq =>
    obtain rfl := (List.cons.inj heq).2
    exact absurd rfl h
  · next heq =>
    obtain rfl := (List.cons.inj heq).2
    cases body rest <;> rfl
  · next hother => exact absurd rfl (hother rest)

theorem regExp_of_other {text : Text} (h : text.head? ≠ some '/') : regExp text = none := by
  unfold regExp
  split
  · exact absurd rfl h
  · exact absurd rfl h
  · rfl

theorem append_of_body {text lexeme rest : Text} (h : body text = some (lexeme, rest)) :
    lexeme ++ rest = text := by
  fun_induction body text generalizing lexeme with
  | case1 => simp at h
  | case2 => simp at h
  | case3 => simp at h
  | case4 c tail _ ih =>
    obtain ⟨found, hfound, rfl⟩ := map_extend_eq_some_iff.1 h
    simp [ih hfound]
  | case5 tail members after hclass ih =>
    obtain ⟨found, hfound, rfl⟩ := map_extend_eq_some_iff.1 h
    simp [ih hfound, (lawful_classBody hclass).2]
  | case6 tail _ ih =>
    obtain ⟨found, hfound, rfl⟩ := map_extend_eq_some_iff.1 h
    simp [ih hfound]
  | case7 =>
    simp only [Option.some.injEq, Prod.mk.injEq] at h
    obtain ⟨rfl, rfl⟩ := h
    simp
  | case8 => simp at h
  | case9 c tail _ _ _ _ _ ih =>
    obtain ⟨found, hfound, rfl⟩ := map_extend_eq_some_iff.1 h
    simp [ih hfound]

theorem lawful_regExp : regExp.Lawful := by
  intro text lexeme rest h
  unfold regExp at h
  split at h
  · simp at h
  · split at h
    · next hbody =>
      simp only [Option.some.injEq, extend, Prod.mk.injEq] at h
      obtain ⟨rfl, rfl⟩ := h
      exact ⟨by simp, by simp [append_of_body hbody]⟩
    · simp at h
  · simp at h

theorem lawful_unfinished : unfinished.Lawful :=
  lawful_toLineEnd [] (by decide)

end EcmaLex.RegExp
