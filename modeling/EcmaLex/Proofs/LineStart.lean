import EcmaLex.Proofs.Rest.Run
import Mathlib.Data.List.DropRight

/-!
# End marks at the start of a line

The end mark of a markup comment begins a comment only at the start of a line: where nothing but
whitespace and comments has been given since the last line end. The context knows so from the tokens alone,
since a line end sets what it remembers, whitespace and comments keep it, whatever lines a comment goes
over, and every other token clears it: `atLineStart_iff`. Anywhere else, and in older editions, the mark
is an operator and what is behind it.
-/

namespace EcmaLex

open Matcher

/-- The tokens behind the last line end. -/
def Token.sinceLineEnd (tokens : List Token) : List Token :=
  tokens.rtakeWhile fun token => token.kind != .lineEnd

/-- Nothing but whitespace and comments stands behind the last line end. -/
def AtLineStart (tokens : List Token) : Prop :=
  ∀ token ∈ Token.sinceLineEnd tokens, token.kind = .whitespace ∨ token.kind = .comment

instance (tokens : List Token) : Decidable (AtLineStart tokens) :=
  inferInstanceAs (Decidable (∀ token ∈ Token.sinceLineEnd tokens,
    token.kind = .whitespace ∨ token.kind = .comment))

theorem Token.sinceLineEnd_concat (tokens : List Token) (token : Token) :
    sinceLineEnd (tokens ++ [token]) =
      if token.kind = .lineEnd then [] else sinceLineEnd tokens ++ [token] := by
  rw [sinceLineEnd, List.rtakeWhile_concat]
  by_cases h : token.kind = .lineEnd <;> simp [h, sinceLineEnd]

theorem atLineStart_concat (tokens : List Token) (token : Token) :
    AtLineStart (tokens ++ [token]) ↔
      token.kind = .lineEnd ∨
        AtLineStart tokens ∧ (token.kind = .whitespace ∨ token.kind = .comment) := by
  unfold AtLineStart
  rw [Token.sinceLineEnd_concat]
  by_cases h : token.kind = .lineEnd
  · simp [h]
  · simp only [h, if_false, List.forall_mem_append, List.forall_mem_singleton, false_or]

/-- What one more token does to what the context remembers of the line. -/
theorem Context.atLineStart_observe (context : Context) (kind : TokenKind) :
    (context.observe kind).atLineStart = true ↔
      kind = .lineEnd ∨
        context.atLineStart = true ∧ (kind = .whitespace ∨ kind = .comment) := by
  cases kind <;> simp [Context.observe]

/-- After every row of tokens the context knows whether they end at the start of a line. -/
theorem Lexer.Emits.atLineStart_iff {source : Text} {settings : Settings} {tokens : List Token}
    {after : Lexer} (h : Emits (ofText source settings) tokens after) :
    after.context.atLineStart = true ↔ AtLineStart tokens := by
  refine h.induction (P := fun tokens _ context =>
    context.atLineStart = true ↔ AtLineStart tokens) ?_ ?_
  · exact iff_of_true rfl fun token hmem => (List.not_mem_nil hmem).elim
  · intro tokens now kind lexeme rest hstart _ _
    rw [Context.atLineStart_observe, atLineStart_concat, hstart]
    exact Iff.rfl

variable {edition : Edition} {context : Context}

/-- At a minus only the rules for comments and for operators answer. -/
theorem select_minus (edition : Edition) (context : Context) (rest : Text) :
    select edition context ('-' :: rest) =
      (firstOf commentRules edition context ('-' :: rest)).or
        (firstOf operatorRules edition context ('-' :: rest)) := by
  have hopened : rulesOpenedBy '-' = commentRules ++ operatorRules := rfl
  rw [select_cons, hopened, firstOf_append]

/-- Of the rules for comments only that for the end mark reads it. -/
theorem firstOf_commentRules_markupClose (tail : Text) :
    firstOf commentRules edition context ('-' :: '-' :: '>' :: tail) =
      if edition.includes .es2015 = true ∧ context.atLineStart = true then
        some { action := .emit .comment
               lexeme := (Text.splitLine ('-' :: '-' :: '>' :: tail)).1
               rest := (Text.splitLine ('-' :: '-' :: '>' :: tail)).2 }
      else none := by
  have hline : Comment.line ('-' :: '-' :: '>' :: tail) = none :=
    opensOn_toLineEnd _ _ _ (by decide)
  have hblock : Comment.block ('-' :: '-' :: '>' :: tail) = none :=
    Comment.opensOn_block _ (by decide)
  have hunfinished : Comment.unfinished ('-' :: '-' :: '>' :: tail) = none :=
    opensOn_toLineEnd _ _ _ (by decide)
  have hclose : Comment.markupClose ('-' :: '-' :: '>' :: tail) =
      some (Text.splitLine ('-' :: '-' :: '>' :: tail)) := by
    rw [Comment.markupClose, toLineEnd, if_pos (by simp)]
  have hopen : Comment.markupOpen ('-' :: '-' :: '>' :: tail) = none :=
    opensOn_toLineEnd _ _ _ (by decide)
  rw [commentRules, firstOf_cons_of_none hline, firstOf_cons_of_none hblock,
    firstOf_cons_of_none hunfinished]
  simp only [firstOf, List.findSome?_cons, List.findSome?_nil, Rule.find?, Rule.applies,
    Bool.and_eq_true, hclose, hopen, Option.map_some, Option.map_none, ite_self]
  by_cases h : edition.includes .es2015 = true ∧ context.atLineStart = true
  · simp only [if_pos h]
  · simp only [if_neg h]

theorem firstOf_operatorRules_markupClose (hes5 : edition.includes .es5 = true) (tail : Text) :
    firstOf operatorRules edition context ('-' :: '-' :: '>' :: tail) =
      some { action := .emit .operator, lexeme := ['-', '-'], rest := '>' :: tail } := by
  have hbase : oneOf Operator.base ('-' :: '-' :: '>' :: tail) = some (['-', '-'], '>' :: tail) := rfl
  have hexponent : oneOf Operator.exponent ('-' :: '-' :: '>' :: tail) = none := rfl
  have harrow : oneOf Operator.arrowAndSpread ('-' :: '-' :: '>' :: tail) = none := rfl
  simp [firstOf, operatorRules, Rule.find?, Rule.applies, hes5, hbase, hexponent, harrow]

/-- What the rules select at the end mark of a markup comment. -/
theorem select_markupClose (hes5 : edition.includes .es5 = true) (tail : Text) :
    select edition context ('-' :: '-' :: '>' :: tail) =
      some (if edition.includes .es2015 = true ∧ context.atLineStart = true then
        { action := .emit .comment
          lexeme := (Text.splitLine ('-' :: '-' :: '>' :: tail)).1
          rest := (Text.splitLine ('-' :: '-' :: '>' :: tail)).2 }
      else { action := .emit .operator, lexeme := ['-', '-'], rest := '>' :: tail }) := by
  rw [select_minus, firstOf_commentRules_markupClose, firstOf_operatorRules_markupClose hes5]
  split <;> rfl

/-- The rest of a line goes up to the next line break and does not include it. -/
theorem Text.splitLine_ends (text : Text) :
    text.restOfLine ++ text.splitLine.2 = text ∧ (∀ c ∈ text.restOfLine, isLineBreak c = false) ∧
      text.splitLine.2.head?.all isLineBreak = true := by
  have happend : text.restOfLine ++ text.splitLine.2 = text := run_append _ text
  have hrun : run (fun c => !isLineBreak c) (text.restOfLine ++ text.splitLine.2) =
      (text.restOfLine, text.splitLine.2) := by
    rw [happend]
    rfl
  obtain ⟨hinside, hstop⟩ := run_eq_iff.1 hrun
  refine ⟨happend, fun c hc => by simpa using hinside c hc, ?_⟩
  cases htail : text.splitLine.2 with
  | nil => rfl
  | cons c tail =>
    rw [htail, List.head?_cons, Option.any_some] at hstop
    simpa using hstop

/-- What a call gives at the end mark of a markup comment, by what the context remembers. -/
theorem next_markupClose {lexer : Lexer} (hlive : lexer.Live)
    (hes5 : lexer.settings.edition.includes .es5 = true) {tail : Text}
    (hahead : lexer.cursor.rest = '-' :: '-' :: '>' :: tail) :
    ∃ token after, lexer.next = (some (.ok token), after) ∧
      (lexer.settings.edition.includes .es2015 = true ∧ lexer.context.atLineStart = true →
        token.kind = .comment ∧ token.text = lexer.cursor.rest.restOfLine) ∧
      (¬ (lexer.settings.edition.includes .es2015 = true ∧ lexer.context.atLineStart = true) →
        token.kind = .operator ∧ token.text = ['-', '-']) := by
  by_cases h : lexer.settings.edition.includes .es2015 = true ∧ lexer.context.atLineStart = true
  · have hselect : lexer.selection =
        some { action := .emit .comment
               lexeme := lexer.cursor.rest.restOfLine
               rest := lexer.cursor.rest.splitLine.2 } := by
      rw [Lexer.selection, hahead, select_markupClose hes5, if_pos h]
      rfl
    exact ⟨_, _, (Lexer.Call.emitted hlive hselect).next_eq, fun _ => ⟨rfl, rfl⟩,
      fun hnot => absurd h hnot⟩
  · have hselect : lexer.selection =
        some { action := .emit .operator, lexeme := ['-', '-'], rest := '>' :: tail } := by
      rw [Lexer.selection, hahead, select_markupClose hes5, if_neg h]
    exact ⟨_, _, (Lexer.Call.emitted hlive hselect).next_eq, fun hyes => absurd hyes h,
      fun _ => ⟨rfl, rfl⟩⟩

/-- Where some of the tokens of a run have been given, a lexer stands before the text that is left and gives
the others. -/
theorem Lexer.exists_emits_at {source ahead : Text} {settings : Settings} {before later : List Token}
    (hrun : (ofText source settings).run.tokens = before ++ later)
    (htexts : Token.texts before ++ ahead = source) :
    ∃ now, Emits (ofText source settings) before now ∧ now.cursor.rest = ahead ∧
      now.run.tokens = later := by
  obtain ⟨last, hemits, -⟩ := exists_emits_run (ofText source settings)
  rw [hrun] at hemits
  obtain ⟨now, hbefore, -⟩ := hemits.exists_of_append
  have hahead : Token.texts before ++ now.cursor.rest = source := hbefore.texts_append
  rw [hbefore.run_eq] at hrun
  exact ⟨now, hbefore, List.append_cancel_left (hahead.trans htexts.symm),
    List.append_cancel_left hrun⟩

/-- In every scan, the end mark of a markup comment begins a comment exactly if the edition knows such comments
and only whitespace and comments have been given since the last line end. The comment goes on up to the next
line break, and does not include it. Otherwise the mark is read as an operator and what is behind it. -/
theorem markup_close (source : Text) (settings : Settings)
    (hes5 : settings.edition.includes .es5 = true) :
    ∀ before later ahead,
      (Lexer.ofText source settings).run.tokens = before ++ later →
      Token.texts before ++ ahead = source → ['-', '-', '>'] <+: ahead →
      before.length < settings.iterationLimit.toNat →
        ∃ token later', later = token :: later' ∧
          (settings.edition.includes .es2015 = true → AtLineStart before →
            token.kind = .comment ∧ ∃ rest, token.text ++ rest = ahead ∧
              (∀ c ∈ token.text, isLineBreak c = false) ∧ rest.head?.all isLineBreak = true) ∧
          (¬ (settings.edition.includes .es2015 = true ∧ AtLineStart before) →
            token.kind = .operator ∧ token.text = ['-', '-']) := by
  intro before later ahead hrun htexts hmark hlimit
  obtain ⟨tail, rfl⟩ := hmark
  obtain ⟨now, hemits, hahead, hlater⟩ := Lexer.exists_emits_at hrun htexts
  have hsettings : now.settings = settings := hemits.settings_eq
  have hallows : (Lexer.ofText source settings).Allows (before.length + 1) :=
    ⟨rfl, by show 0 + (before.length + 1) ≤ settings.iterationLimit.toNat; omega⟩
  have hlive : now.Live := (hemits.allows hallows).live (by rw [hahead]; exact List.cons_ne_nil _ _)
  obtain ⟨token, after, hnext, htoken⟩ := next_markupClose hlive (by rwa [hsettings]) hahead
  rw [hsettings, hemits.atLineStart_iff, hahead] at htoken
  rw [(Lexer.emits_singleton hnext).run_eq] at hlater
  refine ⟨token, after.run.tokens, hlater.symm, fun hes2015 hstart => ?_, htoken.2⟩
  obtain ⟨hkind, htext⟩ := htoken.1 ⟨hes2015, hstart⟩
  rw [htext]
  exact ⟨hkind, _, Text.splitLine_ends _⟩

/-- Behind a line end and a blank, the end mark begins a comment that ends before the next line end. -/
theorem markup_close_blank :
    let source : Text := ['\n', ' ', '-', '-', '>', 'a', '\r']
    let settings : Settings := { edition := .es2015 }
    let before : List Token :=
      [⟨.lineEnd, ['\n'], ⟨0, 1, ⟨1, 1⟩⟩⟩, ⟨.whitespace, [' '], ⟨1, 2, ⟨2, 1⟩⟩⟩]
    let later : List Token :=
      [⟨.comment, ['-', '-', '>', 'a'], ⟨2, 6, ⟨2, 2⟩⟩⟩, ⟨.lineEnd, ['\r'], ⟨6, 7, ⟨2, 6⟩⟩⟩]
    (Lexer.ofText source settings).run.tokens = before ++ later ∧ AtLineStart before ∧
      before.length < settings.iterationLimit.toNat ∧
      ∃ token later', later = token :: later' ∧ token.kind = .comment ∧
        ∃ rest, token.text ++ rest = ['-', '-', '>', 'a', '\r'] ∧
          (∀ c ∈ token.text, isLineBreak c = false) ∧ rest.head?.all isLineBreak = true := by
  intro source settings before later
  have hrun : (Lexer.ofText source settings).run.tokens = before ++ later := by decide +kernel
  have hstart : AtLineStart before := by decide
  have hlimit : before.length < settings.iterationLimit.toNat := by decide
  obtain ⟨token, later', hlater, hcomment, -⟩ := markup_close source settings (by decide) before later
    ['-', '-', '>', 'a', '\r'] hrun rfl (by decide) hlimit
  exact ⟨hrun, hstart, hlimit, token, later', hlater, hcomment (by decide) hstart⟩

end EcmaLex
