import EcmaLex.Proofs.Rest.Run

/-!
# Scanning line by line

Source that can be scanned by itself gives the same tokens with a line feed and more text behind it,
whatever that text is. The run then goes on as the lexer at the end of the first part does when it has
read the line feed, so that it can be kept and resumed with the next lines: `run_append_line`.
-/

namespace EcmaLex.Lexer

/-- A lexer at the end of its source, when a line feed and `more` have been put behind the source and the
line feed has been read. -/
def onNextLine (lexer : Lexer) (more : Text) : Lexer :=
  { lexer with
    cursor :=
      { source := lexer.cursor.source ++ '\n' :: more
        rest := more
        position := lexer.cursor.position + 1
        location := lexer.cursor.location.after ['\n'] }
    context := lexer.context.observe .lineEnd
    iterations := lexer.iterations + 1
    finished := false }

/-- A run over source that can be scanned by itself, with a line feed and more text behind it, begins
with the tokens of that source and a line end, and goes on as the lexer at its end does. -/
theorem run_append_line {source : Text} {settings : Settings} {tokens : List Token}
    (hes5 : settings.edition.includes .es5 = true)
    (hscan : EcmaLex.tokenize source settings = .ok tokens) (hcr : source.getLast? ≠ some '\r')
    (hlimit : tokens.length < settings.iterationLimit.toNat) (more : Text) :
    (ofText (source ++ '\n' :: more) settings).run =
      let final := (ofText source settings).run.final
      let later := (final.onNextLine more).run
      { later with tokens := tokens ++ final.tokenOf .lineEnd ['\n'] :: later.tokens } := by
  obtain ⟨hfault, rfl⟩ := Run.result_eq_ok_iff.1 hscan
  obtain ⟨last, hemits, hrest, hfinal⟩ := (run_fault_eq_none_iff rfl).1 hfault
  have hsource : last.cursor.source = source :=
    hemits.induction (P := fun _ cursor _ => cursor.source = source) rfl fun h _ _ => h
  have hrunning : last.finished = false := hemits.finished_eq
  have hagain := hemits.before_lineFeed hrest hes5 hcr more
  have hallows : (ofText (source ++ '\n' :: more) settings).Allows
      ((ofText source settings).run.tokens.length + 1) := by
    refine ⟨rfl, ?_⟩
    show 0 + _ ≤ settings.iterationLimit.toNat
    omega
  have hedition : last.settings = settings := hemits.settings_eq
  have hline : (last.reading (source ++ '\n' :: more) ('\n' :: more)).selection =
      some { action := .emit .lineEnd, lexeme := ['\n'], rest := more } :=
    select_lineFeed (by rw [← hedition] at hes5; exact hes5) _ _
  have hnext : (last.reading (source ++ '\n' :: more) ('\n' :: more)).past .lineEnd ['\n'] more =
      (ofText source settings).run.final.onNextLine more := by
    simp only [hfinal, onNextLine, past, reading, Cursor.advance, hsource, hrunning]
    rfl
  have hrun := (hagain.append (emits_of_selection (hagain.allows hallows) hline)).run_eq
  rw [hrun, hnext, List.append_assoc, hfinal]
  rfl

/-- A regular expression whose bracket opens no class on its line. -/
def openBracket : Text := ['=', '/', '[', '/']

/-- A bracket on the next line does not close it. -/
theorem run_append_line_openBracket :
    let settings : Settings := {}
    let tokens := (ofText openBracket settings).run.tokens
    EcmaLex.tokenize openBracket settings = .ok tokens ∧
    tokens.map (fun token => (token.kind, token.text)) =
      [(.operator, ['=']), (.literal, ['/', '[', '/'])] ∧
    (ofText (openBracket ++ '\n' :: [']', '/', 'a']) settings).run =
      let final := (ofText openBracket settings).run.final
      let later := (final.onNextLine [']', '/', 'a']).run
      { later with tokens := tokens ++ final.tokenOf .lineEnd ['\n'] :: later.tokens } := by
  have hscan : EcmaLex.tokenize openBracket {} = .ok (ofText openBracket {}).run.tokens :=
    Run.result_eq_ok_iff.2 ⟨by decide +kernel, rfl⟩
  exact ⟨hscan, by decide +kernel,
    run_append_line (by decide) hscan (by decide) (by decide +kernel) [']', '/', 'a']⟩

end EcmaLex.Lexer
