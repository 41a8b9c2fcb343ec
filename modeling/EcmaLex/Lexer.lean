import EcmaLex.Rule.Table
import EcmaLex.Settings
import EcmaLex.Source.Cursor
import EcmaLex.Token.Basic

/-!
# Scanning

A lexer stands somewhere in its source, knows what the tokens so far leave behind, and gives one
token at a time until the source ends or a fault stops it. After that it gives nothing more. `run`
is everything a lexer still gives, and `tokenize` reads a whole source.
-/

namespace EcmaLex

structure Lexer where
  cursor : Cursor
  context : Context
  settings : Settings
  /-- How many rules have been applied. -/
  iterations : UInt64
  /-- Whether the source has ended or a fault has been given. -/
  finished : Bool
  deriving DecidableEq, Repr

namespace Lexer

/-- A lexer at the start of a source. -/
def ofText (source : Text) (settings : Settings) : Lexer :=
  { cursor := .ofText source, context := .initial, settings, iterations := 0, finished := false }

/-- Applies one rule to the text ahead. A fault leaves cursor and context where they are. -/
def step (lexer : Lexer) : Except Fault Token × Lexer :=
  let cursor := lexer.cursor
  let limit := lexer.settings.iterationLimit
  if limit ≤ lexer.iterations then
    (.error (.iterationLimit limit (cursor.spanOf cursor.rest)), lexer)
  else
    let counted := { lexer with iterations := lexer.iterations + 1 }
    match select lexer.settings.edition lexer.context cursor.rest with
    | none =>
      let offending := cursor.rest.take 1
      (.error (.unrecognized cursor.rest.firstLine (cursor.spanOf offending)), counted)
    | some { action := .emit kind, lexeme, rest } =>
      (.ok { kind, text := lexeme, span := cursor.spanOf lexeme },
        { counted with cursor := cursor.advance lexeme rest, context := lexer.context.observe kind })
    | some { action := .fail diagnosis, lexeme, .. } =>
      (.error (diagnosis.fault lexeme (cursor.spanOf lexeme)), counted)

/-- The next token, or the fault that ends the scan, if the scan has not ended. -/
def next (lexer : Lexer) : Option (Except Fault Token) × Lexer :=
  if lexer.finished then (none, lexer)
  else if lexer.cursor.atEnd then (none, { lexer with finished := true })
  else
    match lexer.step with
    | (.ok token, after) => (some (.ok token), after)
    | (.error fault, after) => (some (.error fault), { after with finished := true })

/-- A token is read off the start of the text ahead. -/
theorem append_of_step {lexer after : Lexer} {token : Token}
    (h : lexer.step = (.ok token, after)) :
    token.text ≠ [] ∧ token.text ++ after.cursor.rest = lexer.cursor.rest := by
  simp only [step] at h
  split at h
  · simp at h
  · split at h
    · simp at h
    · next kind lexeme rest hselect =>
      simp only [Prod.mk.injEq, Except.ok.injEq] at h
      obtain ⟨rfl, rfl⟩ := h
      exact append_of_select hselect
    · simp at h

theorem append_of_next {lexer after : Lexer} {token : Token}
    (h : lexer.next = (some (.ok token), after)) :
    token.text ≠ [] ∧ token.text ++ after.cursor.rest = lexer.cursor.rest := by
  unfold next at h
  split at h
  · simp at h
  · split at h
    · simp at h
    · split at h
      · next hstep =>
        simp only [Prod.mk.injEq, Option.some.injEq, Except.ok.injEq] at h
        obtain ⟨rfl, rfl⟩ := h
        exact append_of_step hstep
      · simp at h

/-- Every token brings the end of the source nearer. -/
theorem length_rest_lt_of_next {lexer after : Lexer} {token : Token}
    (h : lexer.next = (some (.ok token), after)) :
    after.cursor.rest.length < lexer.cursor.rest.length := by
  obtain ⟨hne, happend⟩ := append_of_next h
  have hpos := List.length_pos_iff.2 hne
  rw [← happend, List.length_append]
  omega

/-- What a lexer gives from some point on: its tokens, the fault after them if there is one, and the
lexer as it is then. -/
structure Run where
  tokens : List Token
  fault : Option Fault
  final : Lexer
  deriving DecidableEq, Repr

/-- Everything a lexer still gives. -/
def run (lexer : Lexer) : Run :=
  match _h : lexer.next with
  | (none, final) => { tokens := [], fault := none, final }
  | (some (.error fault), final) => { tokens := [], fault := some fault, final }
  | (some (.ok token), after) =>
    let later := run after
    { later with tokens := token :: later.tokens }
termination_by lexer.cursor.rest.length
decreasing_by exact length_rest_lt_of_next _h

/-- The tokens of a run that no fault ended. -/
def Run.result (run : Run) : Except Fault (List Token) :=
  match run.fault with
  | none => .ok run.tokens
  | some fault => .error fault

/-- All tokens a lexer still gives, or the fault it comes upon. -/
def tokenize (lexer : Lexer) : Except Fault (List Token) :=
  lexer.run.result

end Lexer

/-- The tokens of a source, or the first fault in it. -/
def tokenize (source : Text) (settings : Settings) : Except Fault (List Token) :=
  (Lexer.ofText source settings).tokenize

end EcmaLex
