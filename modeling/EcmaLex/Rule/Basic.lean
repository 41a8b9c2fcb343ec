import EcmaLex.Context
import EcmaLex.Edition
import EcmaLex.Fault
import EcmaLex.Lexeme.Basic

/-!
# Rules

A rule says what to do with a lexeme of one form: emit a token of some kind, or stop with a
diagnosis. It takes part from the edition that introduced it on, and only in the contexts that its
guard admits.
-/

namespace EcmaLex

/-- What is wrong with a lexeme that no correct source has. -/
inductive Diagnosis where
  | malformedNumeral (problem : NumeralFault)
  | unfinished (construct : Unfinished)
  | unmatchedBrace
  deriving DecidableEq, Repr

/-- The fault found in a lexeme with the given span. -/
def Diagnosis.fault (lexeme : Text) (span : Span) : Diagnosis → Fault
  | malformedNumeral problem => .malformedNumeral problem lexeme span
  | unfinished construct => .unfinished construct span
  | unmatchedBrace => .unmatchedBrace span

/-- What a rule does with its lexeme. -/
inductive Action where
  | emit (kind : TokenKind)
  | fail (diagnosis : Diagnosis)
  deriving DecidableEq, Repr

structure Rule where
  /-- The edition that introduced the rule. -/
  since : Edition := .es5
  guard : Context → Bool := fun _ => true
  matcher : Matcher
  action : Action

/-- Whether the rule takes part in this edition and context. -/
def Rule.applies (rule : Rule) (edition : Edition) (context : Context) : Bool :=
  edition.includes rule.since && rule.guard context

/-- What a rule found at the start of a text and what to do with it. -/
structure Selection where
  action : Action
  lexeme : Text
  rest : Text
  deriving DecidableEq, Repr

/-- What the rule finds at the start of a text, if it takes part and matches. -/
def Rule.find? (rule : Rule) (edition : Edition) (context : Context) (text : Text) :
    Option Selection :=
  if rule.applies edition context then
    (rule.matcher text).map fun (lexeme, rest) => { action := rule.action, lexeme, rest }
  else none

theorem Rule.find?_eq_some_iff {rule : Rule} {edition : Edition} {context : Context} {text : Text}
    {selection : Selection} :
    rule.find? edition context text = some selection ↔
      rule.applies edition context = true ∧ rule.action = selection.action ∧
        rule.matcher text = some (selection.lexeme, selection.rest) := by
  obtain ⟨action, lexeme, rest⟩ := selection
  simp only [Rule.find?, Option.ite_none_right_eq_some, Option.map_eq_some_iff, Prod.exists,
    Selection.mk.injEq]
  constructor
  · rintro ⟨happlies, _, _, hmatch, rfl, rfl, rfl⟩
    exact ⟨happlies, rfl, hmatch⟩
  · rintro ⟨happlies, rfl, hmatch⟩
    exact ⟨happlies, _, _, hmatch, rfl, rfl, rfl⟩

end EcmaLex
