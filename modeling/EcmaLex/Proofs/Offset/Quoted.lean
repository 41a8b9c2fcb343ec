import EcmaLex.Lexeme.Quotation
import EcmaLex.Lexeme.Template
import EcmaLex.Proofs.Offset.Basic

/-!
# Strings and templates by byte offsets

A string is read character by character with the offset of each. A template is walked byte by byte,
also through the middle of characters, where none of the bytes looked for can stand; only a backslash
makes the walk go over a whole character at once.
-/

namespace EcmaLex

namespace Quotation

open Matcher Text

/-- The offset after the closing quote, where reading has come to `offset`. -/
def endFrom (quote : Char) (offset : Nat) : Text → Option Nat
  | [] => none
  | '\\' :: [] => none
  | '\\' :: '\r' :: '\n' :: rest => endFrom quote (offset + 3) rest
  | '\\' :: c :: rest => endFrom quote (offset + 1 + c.utf8Size) rest
  | c :: rest =>
    if isLineTerminator c then none
    else if c = quote then some (offset + 1)
    else endFrom quote (offset + c.utf8Size) rest

def stringSize : Measure
  | [] => some none
  | c :: rest =>
    if c = singleQuote || c = doubleQuote then some (endFrom c 1 rest) else some none

theorem endFrom_eq {quote : Char} (hquote : quote = singleQuote ∨ quote = doubleQuote)
    (offset : Nat) (text : Text) :
    endFrom quote offset text = (body quote text).map fun found => offset + byteSize found.1 := by
  have hone : quote.utf8Size = 1 := by
    rcases hquote with rfl | rfl <;> rfl
  have hline : isLineTerminator quote = false := by
    rcases hquote with rfl | rfl <;> rfl
  fun_induction body quote text generalizing offset with
  | case1 => rfl
  | case2 => rfl
  | case3 rest ih =>
    have hread : byteSize ['\\', '\r', '\n'] = 3 := rfl
    rw [endFrom, ih, size_map_extend, hread]
  | case4 c rest hpair ih =>
    have hread : offset + byteSize ['\\', c] = offset + 1 + c.utf8Size := by
      rw [byteSize_cons, byteSize_cons, byteSize_nil, Nat.add_assoc]
      rfl
    rw [endFrom, ih, size_map_extend, hread]
    exact hpair
  | case5 rest hend hpair hescape =>
    rw [endFrom, if_neg (by simp [hline]), if_pos rfl, Option.map_some, byteSize_cons, hone]
    · rfl
    all_goals assumption
  | case6 c rest hend hpair hescape hquote hstop =>
    rw [endFrom, if_pos hstop]
    · rfl
    all_goals assumption
  | case7 c rest hend hpair hescape hother hgo ih =>
    rw [endFrom, if_neg hgo, if_neg hother, ih, size_map_extend, byteSize_cons, byteSize_nil]
    · rfl
    all_goals assumption

theorem measures_string : Measures stringSize string := by
  intro text
  cases text with
  | nil => rfl
  | cons c rest =>
    by_cases hc : (c = singleQuote || c = doubleQuote) = true
    · have hquote : c = singleQuote ∨ c = doubleQuote := by simpa using hc
      have hone : byteSize [c] = 1 := by
        rcases hquote with rfl | rfl <;> rfl
      have hsize := size_map_extend 0 [c] (body c rest)
      rw [stringSize, if_pos hc, string, if_pos hc, endFrom_eq hquote]
      simp only [Nat.zero_add, hone] at hsize
      rw [hsize]
    · rw [stringSize, if_neg hc, string, if_neg hc]
      rfl

end Quotation

namespace Template

open Matcher Text

/-- The length of what ends a piece. -/
def Stop.size : Stop → Nat
  | .closing => 1
  | .interpolation => 2

/-- How and at what offset the piece ends that has been walked up to `i`. -/
def stopFrom (text : Text) (i : Nat) : Option (Stop × Nat) :=
  if i < text.byteSize then
    if text.byteAny i (· == '\\') then
      match text.charAt? (i + 1) with
      | some c => stopFrom text (i + 1 + c.utf8Size)
      | none => none
    else if text.byteAny i (· == backquote) then some (.closing, i)
    else if text.byteAny i (· == '$') && text.byteAny (i + 1) (· == '{') then
      some (.interpolation, i)
    else stopFrom text (i + 1)
  else none
termination_by text.byteSize - i

def pieceSize (opening : Char) (stop : Stop) : Measure := fun text =>
  if text.head? = some opening then
    match stopFrom text 1 with
    | some (found, i) => some (if found = stop then some (i + stop.size) else none)
    | none => some none
  else some none

theorem charAt?_after (left : Text) {c : Char} (hc : c.utf8Size = 1) (right : Text) :
    charAt? (left ++ c :: right) (left.byteSize + 1) = right.head? := by
  have h := charAt?_append (left ++ [c]) right
  rwa [byteSize_append, byteSize_cons, byteSize_nil, hc, List.append_assoc,
    List.singleton_append] at h

/-- Whether a piece ends or escapes a character here. -/
def Marks (c : Char) (right : Text) : Prop :=
  c = '\\' ∨ c = backquote ∨ c = '$' ∧ right.head? = some '{'

/-- The walk goes through a character that means nothing to it, byte by byte. -/
theorem stopFrom_within (left : Text) {right : Text} {c : Char} (hc : ¬ Marks c right) :
    stopFrom (left ++ c :: right) left.byteSize =
      stopFrom (left ++ c :: right) (left.byteSize + c.utf8Size) := by
  obtain ⟨hescape, hquote, hopen⟩ : c ≠ '\\' ∧ c ≠ backquote ∧
      ¬ (c = '$' ∧ right.head? = some '{') := by
    simpa [Marks] using hc
  refine eq_of_steps fun k hk => ?_
  have hbyte : ∀ d : Char, d.toNat < 128 → c ≠ d →
      byteAny (left ++ c :: right) (left.byteSize + k) (· == d) = false := by
    intro d hd hne
    rw [byteAny_at (ascii_beq hd) left right hk, beq_eq_false_iff_ne.2 hne, Bool.and_false]
  have hdollar : (byteAny (left ++ c :: right) (left.byteSize + k) (· == '$') &&
      byteAny (left ++ c :: right) (left.byteSize + k + 1) (· == '{')) = false := by
    by_cases hd : c = '$'
    · have hbrace : right.head? ≠ some '{' := fun h => hopen ⟨hd, h⟩
      have hone : c.utf8Size = 1 := by
        rw [hd]
        rfl
      have hzero : k = 0 := by omega
      rw [hzero, Nat.add_zero, byteAny_after (ascii_beq (by decide)) left (by rw [hd]; decide)]
      cases right with
      | nil => exact Bool.and_false _
      | cons d right =>
        have hne : d ≠ '{' := fun h => hbrace (by rw [h]; rfl)
        rw [List.head?_cons, Option.any_some, beq_eq_false_iff_ne.2 hne, Bool.and_false]
    · rw [hbyte '$' (by decide) hd, Bool.false_and]
  have hlt : left.byteSize + k < byteSize (left ++ c :: right) := by
    rw [byteSize_append, byteSize_cons]
    omega
  rw [stopFrom, if_pos hlt, hbyte _ (by decide) hescape, hbyte _ (by decide) hquote, hdollar]
  rfl

/-- From between two characters the walk finds the end that the text has for its reader. -/
theorem stopFrom_append (left right : Text) :
    (stopFrom (left ++ right) left.byteSize).map (fun (stop, i) => (stop, i + stop.size)) =
      (body right).map fun (stop, found) => (stop, left.byteSize + byteSize found.1) := by
  fun_induction body right generalizing left with
  | case1 =>
    rw [List.append_nil, stopFrom, if_neg (Nat.lt_irrefl _)]
    rfl
  | case2 =>
    rw [stopFrom, if_pos (byteSize_lt left _ _), byteAny_here left _ _ (by decide), if_pos (by decide),
      charAt?_after left rfl]
    rfl
  | case3 c rest ih =>
    have hleft : left ++ '\\' :: c :: rest = (left ++ ['\\', c]) ++ rest := by simp
    have hsize : left.byteSize + 1 + c.utf8Size = byteSize (left ++ ['\\', c]) := by
      rw [byteSize_append, byteSize_cons, byteSize_cons, byteSize_nil, Nat.add_assoc]
      rfl
    rw [stopFrom, if_pos (byteSize_lt left _ _), byteAny_here left _ _ (by decide), if_pos (by decide),
      charAt?_after left rfl]
    simp only [List.head?_cons]
    rw [hleft, hsize, ih, Option.map_map]
    congr 1
    funext found
    simp only [Function.comp, extend, byteSize_append, Nat.add_assoc]
  | case4 rest =>
    rw [stopFrom, if_pos (byteSize_lt left _ _), byteAny_here left _ _ (by decide), if_neg (by decide),
      byteAny_here left _ _ (by decide), if_neg (by decide), byteAny_here left _ _ (by decide),
      byteAny_after (ascii_beq (by decide)) left (by decide)]
    rfl
  | case5 rest _ _ _ =>
    rw [stopFrom, if_pos (byteSize_lt left _ _), byteAny_here left _ _ (by decide), if_neg (by decide),
      byteAny_here left _ _ (by decide), if_pos (by decide)]
    rfl
  | case6 c rest hend hescape hopen hquote ih =>
    have hc : ¬ Marks c rest := by
      intro hmarks
      rcases hmarks with rfl | rfl | ⟨rfl, hbrace⟩
      · cases rest with
        | nil => exact hend rfl rfl
        | cons d rest => exact hescape d rest rfl rfl
      · exact hquote rfl
      · obtain ⟨tail, rfl⟩ := List.head?_eq_some_iff.1 hbrace
        exact hopen tail rfl rfl
    have hwithin := stopFrom_within left hc
    have hleft : left ++ c :: rest = (left ++ [c]) ++ rest := by simp
    have hsize : left.byteSize + c.utf8Size = byteSize (left ++ [c]) := by
      rw [byteSize_append, byteSize_cons, byteSize_nil]
      rfl
    rw [hwithin, hleft, hsize, ih, Option.map_map]
    congr 1
    funext found
    simp only [Function.comp, extend, byteSize_append, Nat.add_assoc]

theorem measures_piece {opening : Char} (hopening : opening.utf8Size = 1) (stop : Stop) :
    Measures (pieceSize opening stop) (piece opening stop) := by
  intro text
  unfold pieceSize
  cases text with
  | nil => rfl
  | cons c rest =>
    by_cases hc : c = opening
    · have hone : byteSize [c] = 1 := by rw [byteSize_cons, byteSize_nil, hc, hopening]
      have hstop := stopFrom_append [c] rest
      rw [hone, List.singleton_append] at hstop
      rw [List.head?_cons, if_pos (by rw [hc]), piece, if_pos hc]
      cases hwalk : stopFrom (c :: rest) 1 with
      | none =>
        rw [hwalk] at hstop
        rw [Option.map_eq_none_iff.1 hstop.symm]
        rfl
      | some found =>
        obtain ⟨stopped, i⟩ := found
        rw [hwalk, Option.map_some] at hstop
        obtain ⟨⟨stopped', lexeme, after⟩, hbody, hfound⟩ := Option.map_eq_some_iff.1 hstop.symm
        simp only [Prod.mk.injEq] at hfound
        obtain ⟨rfl, hsize⟩ := hfound
        rw [hbody]
        by_cases hstopped : stopped' = stop
        · have hlength : byteSize (c :: lexeme) = i + stop.size := by
            rw [byteSize_cons, hc, hopening, hsize, hstopped]
          simp only [if_pos hstopped, Option.map_some, hlength]
        · simp only [if_neg hstopped, Option.map_none]
    · rw [List.head?_cons, if_neg (fun h => hc (Option.some.inj h)), piece, if_neg hc]
      rfl

end Template

end EcmaLex
