import EcmaLex.Lexeme.Basic
import EcmaLex.Text.Ascii

/-!
# Names and reserved words

A name is made of units. A unit is a plain character or the escape `\u00` with the two hexadecimal
digits of such a character. A word of a list is only found where it is the whole run of plain
characters, so a longer name that begins with a reserved word is not split.
-/

namespace EcmaLex.Name

open Matcher

def fixedLiterals : List Text :=
  ["false", "true", "null", "this"].map String.toList

/-- Reserved in every edition. -/
def keywords : List Text :=
  ["break", "case", "catch", "class", "const", "continue", "debugger", "default", "delete", "do",
    "else", "enum", "export", "extends", "finally", "for", "function", "if", "import", "in",
    "instanceof", "new", "return", "super", "switch", "throw", "try", "typeof", "var", "void",
    "while", "with"].map String.toList

/-- Reserved in some positions of newer programs. -/
def contextualKeywords : List Text :=
  ["await", "let", "static", "yield"].map String.toList

/-- A whole run of plain name characters that is one of the given words. -/
def wordIn (words : List Text) : Matcher := fun text =>
  if (text.takeWhile isNamePart) ∈ words then some (Text.run isNamePart text) else none

/-- What a hexadecimal digit is worth. -/
def hexValue? (c : Char) : Option Nat :=
  (digitValue? c).filter (· < 16)

/-- The character with the code written in two hexadecimal digits. -/
def escaped? (high low : Char) : Option Char :=
  match hexValue? high, hexValue? low with
  | some h, some l => some (Char.ofNat (16 * h + l))
  | _, _ => none

/-- One unit of a name: a character satisfying `p`, plain or escaped. -/
def nameUnit (p : Char → Bool) : Matcher
  | [] => none
  | '\\' :: 'u' :: '0' :: '0' :: high :: low :: rest =>
    if (escaped? high low).any p then some (['\\', 'u', '0', '0', high, low], rest) else none
  | c :: rest => if p c then some ([c], rest) else none

theorem lawful_nameUnit (p : Char → Bool) : (nameUnit p).Lawful := by
  intro text lexeme rest h
  unfold nameUnit at h
  split at h
  · simp at h
  · simp only [Option.ite_none_right_eq_some, Option.some.injEq, Prod.mk.injEq] at h
    obtain ⟨-, rfl, rfl⟩ := h
    simp
  · simp only [Option.ite_none_right_eq_some, Option.some.injEq, Prod.mk.injEq] at h
    obtain ⟨-, rfl, rfl⟩ := h
    simp

/-- A unit is a plain character of the class, or the escape of one. -/
theorem cases_of_nameUnit {p : Char → Bool} {text unit rest : Text}
    (h : nameUnit p text = some (unit, rest)) :
    (∃ c, unit = [c] ∧ p c = true) ∨
      ∃ high low c, unit = ['\\', 'u', '0', '0', high, low] ∧ escaped? high low = some c ∧
        p c = true := by
  unfold nameUnit at h
  split at h
  · cases h
  · next high low tail =>
    obtain ⟨hany, hfound⟩ := Option.ite_none_right_eq_some.1 h
    obtain ⟨rfl, -⟩ := Prod.mk.inj (Option.some.inj hfound)
    rw [Option.any_eq_true] at hany
    obtain ⟨c, hescaped, hc⟩ := hany
    exact .inr ⟨high, low, c, rfl, hescaped, hc⟩
  · next c tail _ =>
    obtain ⟨hc, hfound⟩ := Option.ite_none_right_eq_some.1 h
    obtain ⟨rfl, -⟩ := Prod.mk.inj (Option.some.inj hfound)
    exact .inl ⟨c, rfl, hc⟩

/-- As many units as can continue a name. -/
def continuation (text : Text) : Text × Text :=
  match _h : nameUnit isNamePart text with
  | some (unit, rest) => extend unit (continuation rest)
  | none => ([], text)
termination_by text.length
decreasing_by exact (lawful_nameUnit _).length_lt _h

/-- A name: a unit that can begin one and all units that continue it. -/
def identifier : Matcher := fun text =>
  match nameUnit isNameStart text with
  | some (unit, rest) => some (extend unit (continuation rest))
  | none => none

theorem continuation_append (text : Text) :
    (continuation text).1 ++ (continuation text).2 = text := by
  fun_induction continuation text with
  | case1 text unit rest h ih => simp [extend, ih, (lawful_nameUnit _ h).2]
  | case2 => rfl

theorem lawful_identifier : identifier.Lawful := by
  intro text lexeme rest h
  unfold identifier at h
  split at h
  · next unit tail hunit =>
    obtain ⟨hne, happend⟩ := lawful_nameUnit _ hunit
    simp only [Option.some.injEq, extend, Prod.mk.injEq] at h
    obtain ⟨rfl, rfl⟩ := h
    exact ⟨by simp [hne], by rw [List.append_assoc, continuation_append, happend]⟩
  · simp at h

theorem lawful_wordIn {words : List Text} (hne : [] ∉ words) : (wordIn words).Lawful := by
  intro text lexeme rest h
  simp only [wordIn, Option.ite_none_right_eq_some, Option.some.injEq] at h
  obtain ⟨hmem, hrun⟩ := h
  refine ⟨?_, Text.append_of_run hrun⟩
  rintro rfl
  simp only [Text.run, Prod.mk.injEq] at hrun
  exact hne (hrun.1 ▸ hmem)

theorem nameUnit_plain {p : Char → Bool} {text : Text}
    (h : ∀ high low rest, text ≠ '\\' :: 'u' :: '0' :: '0' :: high :: low :: rest) :
    nameUnit p text = one p text := by
  unfold nameUnit
  split
  · rfl
  · exact absurd rfl (h _ _ _)
  · rfl

theorem continuation_some {text unit rest : Text} (h : nameUnit isNamePart text = some (unit, rest)) :
    continuation text = extend unit (continuation rest) := by
  rw [continuation]
  split
  · next heq =>
    rw [h] at heq
    obtain ⟨rfl, rfl⟩ := Prod.mk.inj (Option.some.inj heq)
    rfl
  · next heq => rw [h] at heq; cases heq

theorem continuation_none {text : Text} (h : nameUnit isNamePart text = none) :
    continuation text = ([], text) := by
  rw [continuation]
  split
  · next heq => rw [h] at heq; cases heq
  · rfl

end EcmaLex.Name
