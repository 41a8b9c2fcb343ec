import EcmaLex.Lexeme.Basic

/-!
# Quoted strings

A string stands between two quotes of one sort and ends on the line where it began, unless the line
terminator is escaped. A backslash escapes the character after it, or the pair CR LF as a whole.
-/

namespace EcmaLex.Quotation

open Matcher

def singleQuote : Char := '\x27'

def doubleQuote : Char := '\x22'

/-- What is left of a string after its opening quote, up to and with its closing quote. -/
def body (quote : Char) : Matcher
  | [] => none
  | '\\' :: [] => none
  | '\\' :: '\r' :: '\n' :: rest => (body quote rest).map (extend ['\\', '\r', '\n'])
  | '\\' :: c :: rest => (body quote rest).map (extend ['\\', c])
  | c :: rest =>
    if c = quote then some ([c], rest)
    else if isLineTerminator c then none
    else (body quote rest).map (extend [c])

/-- A whole string. -/
def string : Matcher
  | [] => none
  | c :: rest =>
    if c = singleQuote || c = doubleQuote then (body c rest).map (extend [c]) else none

/-- An opening quote and the rest of its line. -/
def unfinished : Matcher :=
  (toLineEnd [singleQuote]).orElse (toLineEnd [doubleQuote])

theorem body_char {quote c : Char} {rest : Text} (hc : c ≠ '\\') :
    body quote (c :: rest) =
      if c = quote then some ([c], rest)
      else if isLineTerminator c then none
      else (body quote rest).map (extend [c]) := by
  rw [body]
  · exact fun h _ => hc h
  · exact fun _ h _ => hc h
  · exact fun _ _ h _ => hc h

theorem lawful_body (quote : Char) : (body quote).Lawful := by
  intro text lexeme rest h
  fun_induction body quote text generalizing lexeme with
  | case1 => simp at h
  | case2 => simp at h
  | case3 tail ih =>
    obtain ⟨found, hfound, rfl⟩ := map_extend_eq_some_iff.1 h
    exact ⟨by simp, by simp [(ih hfound).2]⟩
  | case4 c tail _ ih =>
    obtain ⟨found, hfound, rfl⟩ := map_extend_eq_some_iff.1 h
    exact ⟨by simp, by simp [(ih hfound).2]⟩
  | case5 =>
    simp only [Option.some.injEq, Prod.mk.injEq] at h
    obtain ⟨rfl, rfl⟩ := h
    simp
  | case6 => simp at h
  | case7 c tail _ _ _ _ _ ih =>
    obtain ⟨found, hfound, rfl⟩ := map_extend_eq_some_iff.1 h
    exact ⟨by simp, by simp [(ih hfound).2]⟩

theorem lawful_string : string.Lawful := by
  intro text lexeme rest h
  unfold string at h
  split at h
  · simp at h
  · obtain ⟨-, hmap⟩ := Option.ite_none_right_eq_some.1 h
    obtain ⟨found, hfound, rfl⟩ := map_extend_eq_some_iff.1 hmap
    exact ⟨by simp, by simp [(lawful_body _ hfound).2]⟩

theorem lawful_unfinished : unfinished.Lawful :=
  (lawful_toLineEnd [] (by decide)).orElse (lawful_toLineEnd [] (by decide))

end EcmaLex.Quotation
