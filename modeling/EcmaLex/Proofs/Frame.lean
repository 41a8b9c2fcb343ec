import EcmaLex.Proofs.Nesting
import EcmaLex.Proofs.Run

/-!
# Code inside an interpolation

Code that can be scanned by itself gives the same tokens inside an interpolation: `Emits.inside`. Below
the counters of the code stand those of the code around it, and the rules tell the difference only at a
right brace with nothing open, which is a fault in the code by itself.
-/

namespace EcmaLex

/-- What a token is, wherever it stands. -/
def Token.form (token : Token) : TokenKind × Text :=
  (token.kind, token.text)

/-- A context as it is inside an interpolation, where that of the same code by itself is `alone`. -/
structure Context.Inside (context alone : Context) (around : List UInt32) : Prop where
  expression : context.expression = alone.expression
  afterPeriod : context.afterPeriod = alone.afterPeriod
  atLineStart : context.atLineStart = alone.atLineStart
  top : context.nesting.top = alone.nesting.top
  outer : context.nesting.outer = alone.nesting.outer ++ around

namespace Context.Inside

variable {context alone : Context} {around : List UInt32}

/-- Every token that the code by itself admits keeps the counters of the code around it. -/
theorem observe (h : context.Inside alone around) {kind : TokenKind}
    (hadmits : alone.nesting.Admits kind) :
    (context.observe kind).Inside (alone.observe kind) around := by
  obtain ⟨hexpression, hperiod, hline, htop, houter⟩ := h
  cases kind with
  | whitespace => exact ⟨hexpression, hperiod, hline, htop, houter⟩
  | comment => exact ⟨hexpression, hperiod, hline, htop, houter⟩
  | lineEnd => exact ⟨hexpression, hperiod, rfl, htop, houter⟩
  | leftBrace => exact ⟨rfl, rfl, rfl, congrArg (· + 1) htop, houter⟩
  | rightBrace =>
    have hclose : ∀ nesting : Nesting, nesting.top ≠ 0 →
        nesting.closeBrace = { nesting with top := nesting.top - 1 } := by
      intro nesting hne
      simp [Nesting.closeBrace, Nesting.closeBrace?, hne]
    have hne : alone.nesting.top ≠ 0 := hadmits
    have hleft := hclose context.nesting (by rwa [htop])
    have hright := hclose alone.nesting hne
    refine ⟨rfl, rfl, rfl, ?_, ?_⟩
    · show context.nesting.closeBrace.top = alone.nesting.closeBrace.top
      rw [hleft, hright, htop]
    · show context.nesting.closeBrace.outer = alone.nesting.closeBrace.outer ++ around
      rw [hleft, hright, houter]
  | templateStart =>
    refine ⟨rfl, rfl, rfl, rfl, ?_⟩
    show context.nesting.top :: context.nesting.outer = _
    rw [htop, houter]
    rfl
  | templateEnd =>
    -- the interpolation that ends was opened in the code itself
    obtain ⟨hopen, -⟩ := Nesting.atInterpolationEnd_iff.1 hadmits
    obtain ⟨top, outer, hcons⟩ := List.exists_cons_of_ne_nil hopen
    rw [hcons, List.cons_append] at houter
    refine ⟨rfl, rfl, rfl, ?_, ?_⟩
    · show context.nesting.leave.top = alone.nesting.leave.top
      rw [Nesting.leave, Nesting.leave, houter, hcons]
    · show context.nesting.leave.outer = alone.nesting.leave.outer ++ around
      rw [Nesting.leave, Nesting.leave, houter, hcons]
  | _ => exact ⟨rfl, rfl, rfl, htop, houter⟩

/-- Where the code by itself has left nothing open, only the code around it has. -/
theorem nesting_eq (h : context.Inside alone around) (hempty : alone.nesting = .empty) :
    context.nesting = { top := 0, outer := around } := by
  have htop : context.nesting.top = 0 := by rw [h.top, hempty]; rfl
  have houter : context.nesting.outer = around := by rw [h.outer, hempty]; rfl
  rw [← htop, ← houter]

end Context.Inside

/-- The ends of interpolations are told alike, or what stands there is no right brace: where nothing is
open in the code by itself, one would be unmatched. -/
theorem Context.Inside.atInterpolationEnd_eq_or {edition : Edition}
    (hes5 : edition.includes .es5 = true) {context alone : Context} {around : List UInt32}
    (h : context.Inside alone around) {text : Text} {kind : TokenKind} {lexeme rest : Text}
    (hselect : select edition alone text = some { action := .emit kind, lexeme, rest }) :
    context.nesting.atInterpolationEnd = alone.nesting.atInterpolationEnd ∨
      text.head? ≠ some '}' := by
  by_cases hempty : alone.nesting.top = 0 ∧ alone.nesting.outer = []
  · refine .inr fun hbrace => ?_
    obtain ⟨_, _, hfail⟩ := (select_unmatchedBrace_iff hes5 fun hne => absurd hempty.2 hne).2
      ⟨hbrace, hempty.1, hempty.2⟩
    rw [hselect] at hfail
    cases hfail
  · left
    rw [Bool.eq_iff_iff, Nesting.atInterpolationEnd_iff, Nesting.atInterpolationEnd_iff, h.top,
      h.outer]
    by_cases hzero : alone.nesting.top = 0
    · have hne : alone.nesting.outer ≠ [] := fun heq => hempty ⟨hzero, heq⟩
      simp [hne]
    · simp [hzero]

/-- What the rules emit for the code by itself, they emit for it inside an interpolation. -/
theorem select_inside {edition : Edition} (hes5 : edition.includes .es5 = true)
    {context alone : Context} {around : List UInt32} (h : context.Inside alone around) {text : Text}
    {kind : TokenKind} {lexeme rest : Text}
    (hselect : select edition alone text = some { action := .emit kind, lexeme, rest }) :
    select edition context text = some { action := .emit kind, lexeme, rest } := by
  have hpiece : ∀ {matcher : Matcher}, matcher.OpensOn (· == '}') →
      context.nesting.atInterpolationEnd = alone.nesting.atInterpolationEnd ∨
        matcher text = none := by
    intro matcher hopens
    rcases h.atInterpolationEnd_eq_or hes5 hselect with hend | hhead
    · exact .inl hend
    · obtain ⟨c, tail, rfl⟩ := List.exists_cons_of_ne_nil (ne_nil_of_select hselect)
      exact .inr (hopens tail (beq_eq_false_iff_ne.2 fun hc => hhead (congrArg some hc)))
  obtain ⟨hexpression, hperiod, hline, htop, -⟩ := h
  rw [← hselect]
  suffices hguards : ∀ rule ∈ rules,
      rule.guard context = rule.guard alone ∨ rule.matcher text = none from
    select_congr fun rule hmem => (hguards rule hmem).imp_left fun hguard => by
      rw [Rule.applies, Rule.applies, hguard]
  -- only the rules for the later pieces of a template look at more than the fields that agree
  simp only [rules, blankRules, numeralRules, quotationRules, templateRules, wordRules,
    commentRules, regExpRules, operatorRules, punctuationRules, List.forall_mem_append,
    List.forall_mem_cons, List.not_mem_nil, false_imp_iff, implies_true, and_true, true_or,
    hexpression, hperiod, hline, htop, true_and]
  exact ⟨hpiece (Template.opensOn_piece _ _), hpiece (Template.opensOn_piece _ _),
    hpiece (Matcher.opensOn_toLineEnd _ _)⟩

namespace Lexer

/-- Calls that give tokens of these kinds and texts. -/
def Gives (lexer : Lexer) (forms : List (TokenKind × Text)) (after : Lexer) : Prop :=
  ∃ tokens, Emits lexer tokens after ∧ tokens.map Token.form = forms

theorem Gives.append {lexer mid after : Lexer} {first last : List (TokenKind × Text)}
    (h : Gives lexer first mid) (h' : Gives mid last after) : Gives lexer (first ++ last) after := by
  obtain ⟨tokens, hemits, rfl⟩ := h
  obtain ⟨tokens', hemits', rfl⟩ := h'
  exact ⟨tokens ++ tokens', hemits.append hemits', List.map_append⟩

/-- One more token, where the limit allows it. -/
theorem exists_gives_of_selection {lexer : Lexer} {count : Nat} (h : lexer.Allows (count + 1))
    {kind : TokenKind} {lexeme rest : Text}
    (hselect : lexer.selection = some { action := .emit kind, lexeme, rest }) :
    ∃ after, Gives lexer [(kind, lexeme)] after ∧ after.cursor.rest = rest ∧
      after.context = lexer.context.observe kind ∧ after.settings = lexer.settings ∧
        after.Allows count :=
  ⟨lexer.past kind lexeme rest, ⟨_, emits_of_selection h hselect, rfl⟩, rfl, rfl, rfl, h.past _ _ _⟩

/-- Code that is read by itself is read alike inside an interpolation. -/
theorem Emits.inside {alone last lexer : Lexer} {tokens : List Token} (h : Emits alone tokens last)
    (hes5 : alone.settings.edition.includes .es5 = true)
    (hedition : lexer.settings.edition = alone.settings.edition)
    {around : List UInt32} (hinside : lexer.context.Inside alone.context around)
    (hrest : lexer.cursor.rest = alone.cursor.rest) {count : Nat}
    (hallows : lexer.Allows (tokens.length + count)) :
    ∃ after, Gives lexer (tokens.map Token.form) after ∧ after.cursor.rest = last.cursor.rest ∧
      after.context.Inside last.context around ∧ after.settings = lexer.settings ∧
        after.Allows count := by
  induction h generalizing lexer with
  | nil =>
    rw [List.length_nil, Nat.zero_add] at hallows
    exact ⟨lexer, ⟨[], .nil, rfl⟩, hrest, hinside, rfl, hallows⟩
  | @cons alone mid last token tokens hnext _ ih =>
    obtain ⟨-, kind, lexeme, rest, hselect, rfl, rfl⟩ := next_eq_token_iff.1 hnext
    rw [List.length_cons, Nat.add_right_comm] at hallows
    have hsame : lexer.selection = some { action := .emit kind, lexeme, rest } := by
      rw [selection, hrest, hedition]
      exact select_inside hes5 hinside hselect
    have hadmits : alone.context.nesting.Admits kind := by
      obtain ⟨rule, hmem, -, hguard, haction, -⟩ := exists_of_select hselect
      exact admits_of_guard _ rule hmem hguard kind haction
    obtain ⟨first, hfirst, hrest', hcontext, hsettings, hallows'⟩ :=
      exists_gives_of_selection hallows hsame
    have hinside' : first.context.Inside (alone.context.observe kind) around := by
      rw [hcontext]
      exact hinside.observe hadmits
    obtain ⟨after, hlater, hstop, hleft, hkept, hcount⟩ :=
      ih hes5 (by rw [hsettings]; exact hedition) hinside' hrest' hallows'
    exact ⟨after, hfirst.append hlater, hstop, hleft, hkept.trans hsettings, hcount⟩

end Lexer

end EcmaLex
