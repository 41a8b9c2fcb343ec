import EcmaLex.Proofs.Frame
import EcmaLex.Proofs.Rest.Run

/-!
# Templates with interpolated code

A template is written from plain chunks and from pieces of code, each on lines of its own between the
braces of an interpolation. Where each piece of code can be scanned by itself and leaves nothing open,
the whole can be scanned, and its tokens are the pieces of the template with the tokens of the code
between them: `tokenize_embed`.
-/

namespace EcmaLex

namespace Template

/-- A text that stands in a template as it is: no backslash is left over at its end, and a backquote
or an opening of an interpolation in it is escaped. -/
def Plain : Text → Bool
  | [] => true
  | '\\' :: [] => false
  | '\\' :: _ :: rest => Plain rest
  | '$' :: '{' :: _ => false
  | c :: rest => c != backquote && Plain rest

/-- What a piece that stops in the given way ends with. -/
def Stop.mark : Stop → Text
  | .closing => [backquote]
  | .interpolation => ['$', '{']

/-- A plain chunk is read as a whole, and the mark after it ends the piece. -/
theorem body_plain {chunk : Text} (h : Plain chunk = true) (stop : Stop) (rest : Text) :
    body (chunk ++ (stop.mark ++ rest)) = some (stop, chunk ++ stop.mark, rest) := by
  fun_induction Plain chunk with
  | case1 => cases stop <;> rfl
  | case2 => cases h
  | case3 c chunk ih =>
    rw [List.cons_append, List.cons_append, body, ih h]
    rfl
  | case4 => cases h
  | case5 c chunk hend hescape hopen ih =>
    simp only [Bool.and_eq_true, bne_iff_ne] at h
    have hc : c ≠ '\\' := not_escape hend hescape
    have hmark : c = '$' → (chunk ++ (stop.mark ++ rest)).head? ≠ some '{' := by
      intro hdollar
      cases chunk with
      | nil => cases stop <;> exact fun heq => absurd (Option.some.inj heq) (by decide)
      | cons d chunk => exact fun hd => hopen chunk hdollar (by rw [Option.some.inj hd])
    rw [List.cons_append, body_char hc hmark, if_neg h.1, ih h.2]
    rfl

end Template

open Template

/-- The code gives the tokens by itself and leaves no brace and no interpolation open. -/
def StandsAlone (edition : Edition) (code : Text) (tokens : List Token) : Prop :=
  ∃ own : Settings, own.edition = edition ∧ tokenize code own = .ok tokens ∧
    (Lexer.ofText code own).run.final.context.nesting = .empty

/-- Code to stand in an interpolation, and the chunk of the template after it. -/
structure Interpolation (edition : Edition) where
  code : Text
  /-- What the code gives by itself. -/
  tokens : List Token
  chunk : Text
  standsAlone : StandsAlone edition code tokens
  /-- The line feed after the code is a line end of its own. -/
  not_cr : code.getLast? ≠ some '\r'
  plain : Plain chunk = true

variable {edition : Edition}

/-- How the piece before these interpolations stops. -/
def stopBefore : List (Interpolation edition) → Stop
  | [] => .closing
  | _ :: _ => .interpolation

/-- The interpolations, each with what is left of the template up to the next one. -/
def sections : List (Interpolation edition) → Text
  | [] => []
  | part :: later =>
    '\n' :: (part.code ++ '\n' :: '}' :: (part.chunk ++ ((stopBefore later).mark ++ sections later)))

/-- A template with the given interpolations. -/
def embed (chunk : Text) (parts : List (Interpolation edition)) : Text :=
  backquote :: (chunk ++ ((stopBefore parts).mark ++ sections parts))

/-- What the tokens of the interpolations and of the pieces after them are to be. -/
def sectionForms : List (Interpolation edition) → List (TokenKind × Text)
  | [] => []
  | part :: later =>
    (.lineEnd, ['\n']) :: (part.tokens.map Token.form ++ (.lineEnd, ['\n']) ::
      (laterKind (stopBefore later), '}' :: (part.chunk ++ (stopBefore later).mark)) ::
        sectionForms later)

theorem StandsAlone.exists_emits {code : Text} {tokens : List Token}
    (h : StandsAlone edition code tokens) :
    ∃ own : Settings, own.edition = edition ∧ ∃ last,
      Lexer.Emits (.ofText code own) tokens last ∧ last.cursor.rest = [] ∧
        last.context.nesting = .empty := by
  obtain ⟨own, hedition, htokens, hnesting⟩ := h
  obtain ⟨last, hemits, hrest⟩ := Lexer.tokenize_eq_ok_iff.1 htokens
  refine ⟨own, hedition, last, hemits, hrest, ?_⟩
  rwa [hemits.context_final hrest] at hnesting

/-- What a piece that stops in the given way leaves behind in a template outside every other. -/
def Context.StoppedAt (context : Context) : Stop → Prop
  | .closing => context.nesting = .empty
  | .interpolation =>
    context.expression = false ∧ context.afterPeriod = false ∧
      context.nesting = Nesting.empty.enter

theorem stoppedAt_firstKind (stop : Stop) :
    (Context.initial.observe (firstKind stop)).StoppedAt stop := by
  cases stop with
  | closing => rfl
  | interpolation => exact ⟨rfl, rfl, rfl⟩

theorem stoppedAt_laterKind {context : Context} (h : context.nesting = Nesting.empty.enter)
    (stop : Stop) : (context.observe (laterKind stop)).StoppedAt stop := by
  cases stop with
  | closing =>
    show context.nesting.leave = .empty
    rw [h, Nesting.leave_enter]
  | interpolation => exact ⟨rfl, rfl, h⟩

/-- The code of an interpolation begins as code by itself does, once its line has begun. -/
theorem Context.StoppedAt.inside {context : Context} (h : context.StoppedAt .interpolation) :
    (context.observe .lineEnd).Inside .initial [0] := by
  obtain ⟨hexpression, hperiod, hnesting⟩ := h
  refine ⟨hexpression, hperiod, rfl, ?_, ?_⟩
  · show context.nesting.top = 0
    rw [hnesting]
    rfl
  · show context.nesting.outer = [0]
    rw [hnesting]
    rfl

/-- A backquote opens a template, and a chunk after it goes to its mark. -/
theorem select_embed (hes2015 : edition.includes .es2015 = true) (context : Context) {chunk : Text}
    (hplain : Plain chunk = true) (stop : Stop) (rest : Text) :
    select edition context (backquote :: (chunk ++ (stop.mark ++ rest))) =
      some
        { action := .emit (firstKind stop)
          lexeme := backquote :: (chunk ++ stop.mark)
          rest } := by
  have hguard : (edition.includes .es2015 && true) = true := by
    rw [hes2015]
    rfl
  rw [select_backquote, firstOf_pieceRules_body _ hguard (body_plain hplain stop rest)]

/-- A right brace at the end of an interpolation goes on with the template in the same way. -/
theorem select_section (hes2015 : edition.includes .es2015 = true) {context : Context}
    (hnesting : context.nesting = Nesting.empty.enter) {chunk : Text}
    (hplain : Plain chunk = true) (stop : Stop) (rest : Text) :
    select edition context ('}' :: (chunk ++ (stop.mark ++ rest))) =
      some { action := .emit (laterKind stop), lexeme := '}' :: (chunk ++ stop.mark), rest } := by
  have hend : context.nesting.atInterpolationEnd = true := by
    rw [hnesting]
    rfl
  have hguard : (edition.includes .es2015 && context.nesting.atInterpolationEnd) = true := by
    rw [hes2015, hend]
    rfl
  rw [select_interpolationEnd _ hes2015 hend,
    firstOf_pieceRules_body _ hguard (body_plain hplain stop rest)]

namespace Lexer

/-- A line feed is a line end of its own wherever a lexer stands. -/
theorem selection_lineFeed (hes5 : edition.includes .es5 = true) {lexer : Lexer}
    (hedition : lexer.settings.edition = edition) {rest : Text}
    (hrest : lexer.cursor.rest = '\n' :: rest) :
    lexer.selection = some { action := .emit .lineEnd, lexeme := ['\n'], rest } := by
  rw [selection, hrest, hedition]
  exact select_lineFeed hes5 _ _

/-- One interpolation is read, with the piece of the template after it. -/
theorem exists_gives_section (hes2015 : edition.includes .es2015 = true)
    (part : Interpolation edition) (stop : Stop) {rest : Text} {count : Nat} {lexer : Lexer}
    (hedition : lexer.settings.edition = edition)
    (hrest : lexer.cursor.rest =
      '\n' :: (part.code ++ '\n' :: '}' :: (part.chunk ++ (stop.mark ++ rest))))
    (hcontext : lexer.context.StoppedAt .interpolation)
    (hallows : lexer.Allows (part.tokens.length + (count + 1 + 1) + 1)) :
    ∃ after, Gives lexer
        ((.lineEnd, ['\n']) :: (part.tokens.map Token.form ++
          [(.lineEnd, ['\n']), (laterKind stop, '}' :: (part.chunk ++ stop.mark))])) after ∧
      after.cursor.rest = rest ∧ after.context.StoppedAt stop ∧
        after.settings.edition = edition ∧ after.Allows count := by
  have hes5 : edition.includes .es5 = true := Edition.includes_of_le hes2015 (by decide)
  obtain ⟨own, hown, ended, halone, hended, hempty⟩ := part.standsAlone.exists_emits
  -- the line feed before the code
  obtain ⟨first, hgives₁, hrest₁, hcontext₁, hsettings₁, hallows₁⟩ :=
    exists_gives_of_selection hallows (selection_lineFeed hes5 hedition hrest)
  have hinside : first.context.Inside Context.initial [0] := by
    rw [hcontext₁]
    exact hcontext.inside
  -- the code
  have hes5' : own.edition.includes .es5 = true := by
    rw [hown]
    exact hes5
  have hedition₁ : first.settings.edition = edition := by
    rw [hsettings₁, hedition]
  have hcode := halone.before_lineFeed hended hes5' part.not_cr
    ('}' :: (part.chunk ++ (stop.mark ++ rest)))
  obtain ⟨second, hgives₂, hrest₂, hinside₂, hsettings₂, hallows₂⟩ :=
    hcode.inside hes5' (hedition₁.trans hown.symm) hinside hrest₁ hallows₁
  have hedition₂ : second.settings.edition = edition := by
    rw [hsettings₂, hedition₁]
  -- the line feed after it
  obtain ⟨third, hgives₃, hrest₃, hcontext₃, hsettings₃, hallows₃⟩ :=
    exists_gives_of_selection hallows₂ (selection_lineFeed hes5 hedition₂ hrest₂)
  have hedition₃ : third.settings.edition = edition := by
    rw [hsettings₃, hedition₂]
  have hnesting : third.context.nesting = Nesting.empty.enter := by
    rw [hcontext₃, Context.nesting_observe]
    exact hinside₂.nesting_eq hempty
  -- the piece of the template
  have hpiece : third.selection = some
      { action := .emit (laterKind stop)
        lexeme := '}' :: (part.chunk ++ stop.mark)
        rest } := by
    rw [selection, hrest₃, hedition₃]
    exact select_section hes2015 hnesting part.plain stop rest
  obtain ⟨after, hgives₄, hrest₄, hcontext₄, hsettings₄, hallows₄⟩ :=
    exists_gives_of_selection hallows₃ hpiece
  refine ⟨after, hgives₁.append (hgives₂.append (hgives₃.append hgives₄)), hrest₄, ?_, ?_, hallows₄⟩
  · rw [hcontext₄]
    exact stoppedAt_laterKind hnesting stop
  · rw [hsettings₄, hedition₃]

/-- The interpolations are read one after the other, and the template is closed behind the last. -/
theorem exists_gives_sections (hes2015 : edition.includes .es2015 = true)
    (parts : List (Interpolation edition)) {lexer : Lexer}
    (hedition : lexer.settings.edition = edition) (hrest : lexer.cursor.rest = sections parts)
    (hcontext : lexer.context.StoppedAt (stopBefore parts))
    (hallows : lexer.Allows (sectionForms parts).length) :
    ∃ last, Gives lexer (sectionForms parts) last ∧ last.cursor.rest = [] ∧
      last.context.nesting = .empty := by
  induction parts generalizing lexer with
  | nil => exact ⟨lexer, ⟨[], .nil, rfl⟩, hrest, hcontext⟩
  | cons part later ih =>
    have hcount : (sectionForms (part :: later)).length =
        part.tokens.length + ((sectionForms later).length + 1 + 1) + 1 := by
      simp only [sectionForms, List.length_cons, List.length_append, List.length_map]
    rw [hcount] at hallows
    obtain ⟨after, hgives, hrest', hstopped, hedition', hallows'⟩ :=
      exists_gives_section hes2015 part (stopBefore later) hedition hrest hcontext hallows
    obtain ⟨last, hlater, hend, hleft⟩ := ih hedition' hrest' hstopped hallows'
    have hforms : sectionForms (part :: later) =
        (.lineEnd, ['\n']) :: (part.tokens.map Token.form ++ [(.lineEnd, ['\n']),
          (laterKind (stopBefore later), '}' :: (part.chunk ++ (stopBefore later).mark))]) ++
            sectionForms later := by
      simp only [sectionForms, List.cons_append, List.append_assoc, List.nil_append]
    rw [hforms]
    exact ⟨last, hgives.append hlater, hend, hleft⟩

end Lexer

/-- A template with interpolated code is scanned to its end and leaves nothing open. Its tokens are the
pieces of the template and, between them and each on lines of its own, the tokens that the pieces of
code give by themselves. -/
theorem tokenize_embed {settings : Settings} (hes2015 : settings.edition.includes .es2015 = true)
    {chunk : Text} (hplain : Plain chunk = true) (first : Interpolation settings.edition)
    (later : List (Interpolation settings.edition))
    (hlimit : 1 + (sectionForms (first :: later)).length ≤ settings.iterationLimit.toNat) :
    ∃ tokens, tokenize (embed chunk (first :: later)) settings = .ok tokens ∧
      tokens.map Token.form =
        (.templateStart, backquote :: (chunk ++ ['$', '{'])) :: sectionForms (first :: later) ∧
      (Lexer.ofText (embed chunk (first :: later)) settings).run.final.context.nesting = .empty := by
  have hallows : (Lexer.ofText (embed chunk (first :: later)) settings).Allows
      ((sectionForms (first :: later)).length + 1) := by
    refine ⟨rfl, ?_⟩
    show 0 + ((sectionForms (first :: later)).length + 1) ≤ settings.iterationLimit.toNat
    omega
  have hopening : (Lexer.ofText (embed chunk (first :: later)) settings).selection = some
      { action := .emit .templateStart
        lexeme := backquote :: (chunk ++ ['$', '{'])
        rest := sections (first :: later) } :=
    select_embed hes2015 _ hplain .interpolation _
  obtain ⟨opened, hgives₁, hrest₁, hcontext₁, hsettings₁, hallows₁⟩ :=
    Lexer.exists_gives_of_selection hallows hopening
  have hstopped : opened.context.StoppedAt (stopBefore (first :: later)) := by
    rw [hcontext₁]
    exact stoppedAt_firstKind .interpolation
  have hedition₁ : opened.settings.edition = settings.edition := by
    rw [hsettings₁]
    rfl
  obtain ⟨last, hgives, hend, hleft⟩ :=
    Lexer.exists_gives_sections hes2015 (first :: later) hedition₁ hrest₁ hstopped hallows₁
  obtain ⟨tokens, hemits, hforms⟩ := hgives₁.append hgives
  refine ⟨tokens, Lexer.tokenize_eq_ok_iff.2 ⟨last, hemits, hend⟩, hforms, ?_⟩
  rw [hemits.run_eq, Lexer.run_of_next_none (Lexer.next_eq_none_of_rest hend)]
  exact hleft

/-- A template in braces, itself with an interpolation. -/
def bracedTemplate : Interpolation .es2015 where
  code := ['{', backquote, '$', '{', '1', '}', backquote, '}']
  tokens :=
    (Lexer.ofText ['{', backquote, '$', '{', '1', '}', backquote, '}']
      { edition := .es2015 }).run.tokens
  chunk := ['b']
  standsAlone :=
    ⟨{ edition := .es2015 }, rfl, Lexer.Run.result_eq_ok_iff.2 ⟨by decide +kernel, rfl⟩,
      by decide +kernel⟩
  not_cr := by decide
  plain := by decide

/-- The right braces of the code go to its own brace and template, wherever it stands. -/
theorem tokenize_embed_bracedTemplate :
    ∃ tokens,
      tokenize (embed ['a'] [bracedTemplate, bracedTemplate]) { edition := .es2015 } = .ok tokens ∧
      tokens.map Token.form =
        (.templateStart, [backquote, 'a', '$', '{']) ::
          sectionForms [bracedTemplate, bracedTemplate] ∧
      (sectionForms [bracedTemplate]).map Prod.fst =
        [.lineEnd, .leftBrace, .templateStart, .literal, .templateEnd, .rightBrace, .lineEnd,
          .templateEnd] := by
  obtain ⟨tokens, htokens, hforms, -⟩ := @tokenize_embed { edition := .es2015 } (by decide) ['a']
    (by decide) bracedTemplate [bracedTemplate] (by decide +kernel)
  exact ⟨tokens, htokens, hforms, by decide +kernel⟩

end EcmaLex
