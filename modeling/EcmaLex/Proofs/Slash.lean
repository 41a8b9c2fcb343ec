import EcmaLex.Proofs.History
import EcmaLex.Proofs.Nesting
import EcmaLex.Proofs.Rest.Lexeme

/-!
# What a slash begins

A slash begins a comment where a slash or a star follows. Any other slash divides if the nearest token
before it that is not trivia can end an expression, and begins a regular expression if there is no such
token: `slash_begins`. The context knows which, since it recalls the tokens so far.
-/

namespace EcmaLex

open Matcher

/-- The nearest token that is not trivia is there and can end an expression. -/
def DividesAfter (tokens : List Token) : Prop :=
  ∃ kind ∈ [TokenKind.literal, .template, .templateEnd, .identifier, .rightParen, .rightBracket,
    .rightBrace], Token.lastSignificant tokens = some kind

theorem Context.Recalls.expression_iff {context : Context} {tokens : List Token}
    (h : context.Recalls tokens) : context.expression = true ↔ DividesAfter tokens := by
  have hends : ∀ kind : TokenKind, kind.endsExpression = true ↔
      kind ∈ [TokenKind.literal, .template, .templateEnd, .identifier, .rightParen, .rightBracket,
        .rightBrace] := by
    intro kind
    cases kind <;> decide
  rw [h.expression_eq, Option.any_eq_true, DividesAfter]
  exact exists_congr fun kind => by rw [hends, and_comm]

/-- At a slash only the rules for comments, for regular expressions and for operators answer. -/
theorem select_slash (edition : Edition) (context : Context) (rest : Text) :
    select edition context ('/' :: rest) =
      (firstOf commentRules edition context ('/' :: rest)).or
        ((firstOf regExpRules edition context ('/' :: rest)).or
          (firstOf operatorRules edition context ('/' :: rest))) := by
  have hopened : rulesOpenedBy '/' = commentRules ++ (regExpRules ++ operatorRules) := rfl
  rw [select_cons, hopened, firstOf_append, firstOf_append]

/-- The two openings of comments that begin with a slash. -/
def OpensComment (text : Text) : Prop :=
  ['/', '/'] <+: text ∨ ['/', '*'] <+: text

variable {edition : Edition} {context : Context} {kind : TokenKind} {tail lexeme rest : Text}

theorem firstOf_commentRules_slash_eq_none_iff (hes5 : edition.includes .es5 = true) :
    firstOf commentRules edition context ('/' :: tail) = none ↔ ¬ OpensComment ('/' :: tail) := by
  have hblock : ¬ ['/', '*'] <+: '/' :: tail → Comment.block ('/' :: tail) = none := by
    intro hnot
    unfold Comment.block
    split
    · next heq => exact absurd ⟨_, heq.symm⟩ hnot
    · rfl
  simp only [firstOf_eq_none_iff, commentRules, List.forall_mem_cons, List.not_mem_nil,
    false_imp_iff, implies_true, and_true, Rule.applies, hes5, Bool.and_true, forall_const,
    Comment.line, Comment.unfinished, toLineEnd_eq_none_iff, OpensComment, not_or]
  constructor
  · exact fun h => ⟨h.1, h.2.2.1⟩
  · rintro ⟨hline, hstar⟩
    exact ⟨hline, hblock hstar, hstar, fun _ => opensOn_toLineEnd _ _ _ (by decide),
      fun _ => opensOn_toLineEnd _ _ _ (by decide)⟩

theorem comment_of_firstOf
    (h : firstOf commentRules edition context ('/' :: tail) =
      some { action := .emit kind, lexeme, rest }) : kind = .comment ∧ OpensComment lexeme := by
  obtain ⟨rule, hmem, -, haction, hmatch⟩ := exists_of_firstOf h
  simp only [commentRules, List.mem_cons, List.not_mem_nil, or_false] at hmem
  rcases hmem with rfl | rfl | rfl | rfl | rfl
  · exact ⟨(Action.emit.inj haction).symm, .inl (prefix_of_toLineEnd (by decide) hmatch)⟩
  · refine ⟨(Action.emit.inj haction).symm, .inr ?_⟩
    have hblock : Comment.block ('/' :: tail) = some (lexeme, rest) := hmatch
    unfold Comment.block at hblock
    split at hblock
    · obtain ⟨found, -, rfl⟩ := map_extend_eq_some_iff.1 hblock
      exact List.prefix_append _ _
    · cases hblock
  · cases haction
  · cases hmatch
  · cases hmatch

/-- Where a slash cannot divide, it begins a regular expression, whole or unfinished. -/
theorem firstOf_regExpRules_slash (hes5 : edition.includes .es5 = true)
    (hexpression : context.expression = false) :
    firstOf regExpRules edition context ('/' :: tail) ≠ none := by
  intro h
  simp only [firstOf_eq_none_iff, regExpRules, List.forall_mem_cons, List.not_mem_nil,
    false_imp_iff, implies_true, and_true, Rule.applies, hes5, hexpression, Bool.not_false] at h
  cases h.2 rfl

theorem literal_of_firstOf
    (h : firstOf regExpRules edition context ('/' :: tail) =
      some { action := .emit kind, lexeme, rest }) :
    context.expression = false ∧ kind = .literal ∧ RegExp.regExp lexeme = some (lexeme, []) := by
  obtain ⟨rule, hmem, happlies, haction, hmatch⟩ := exists_of_firstOf h
  simp only [regExpRules, List.mem_cons, List.not_mem_nil, or_false] at hmem
  rcases hmem with rfl | rfl
  · have hexpression : context.expression = false := by
      simp only [Rule.applies, Bool.and_eq_true, Bool.not_eq_true'] at happlies
      exact happlies.2
    have hagain := RegExp.regExp_again hmatch (shortens_of_isPrefix List.nil_prefix)
      (RegExp.keepsBrackets_of (fun _ => rfl) fun _ _ => rfl)
    rw [List.append_nil] at hagain
    exact ⟨hexpression, (Action.emit.inj haction).symm, hagain⟩
  · cases haction

theorem operator_of_firstOf
    (h : firstOf operatorRules edition context ('/' :: tail) =
      some { action := .emit kind, lexeme, rest }) :
    kind = .operator ∧ (lexeme = ['/'] ∨ lexeme = ['/', '=']) := by
  obtain ⟨rule, hmem, -, haction, hmatch⟩ := exists_of_firstOf h
  have hspelling : ∀ {spellings : List Text},
      (spellings.all fun spelling =>
        spelling.head?.any (· != '/') || spelling == ['/'] || spelling == ['/', '=']) = true →
      oneOf spellings ('/' :: tail) = some (lexeme, rest) → lexeme = ['/'] ∨ lexeme = ['/', '='] := by
    intro spellings hall hfound
    obtain ⟨spelling, hmem, hexactly⟩ := List.exists_of_findSome?_eq_some hfound
    obtain ⟨rfl, happend⟩ := exactly_eq_some_iff.1 hexactly
    have hone := List.all_eq_true.1 hall lexeme hmem
    simp only [Bool.or_eq_true, beq_iff_eq, or_assoc] at hone
    rcases hone with hother | hone
    · cases lexeme with
      | nil => cases hother
      | cons c lexeme =>
        rw [(List.cons.inj happend).1] at hother
        cases hother
    · exact hone
  simp only [operatorRules, List.mem_cons, List.not_mem_nil, or_false] at hmem
  rcases hmem with rfl | rfl | rfl
  · exact ⟨(Action.emit.inj haction).symm, hspelling (by decide +kernel) hmatch⟩
  · exact ⟨(Action.emit.inj haction).symm, hspelling (by decide +kernel) hmatch⟩
  · exact ⟨(Action.emit.inj haction).symm, hspelling (by decide +kernel) hmatch⟩

/-- What a token is that begins with a slash, as far as the context can tell. -/
theorem slash_of_select
    (h : select edition context ('/' :: tail) = some { action := .emit kind, lexeme, rest }) :
    (kind = .comment ↔ OpensComment lexeme) ∧
      (kind ≠ .comment →
        (context.expression = true →
          kind = .operator ∧ (lexeme = ['/'] ∨ lexeme = ['/', '='])) ∧
        (context.expression = false →
          kind = .literal ∧ RegExp.regExp lexeme = some (lexeme, []))) := by
  have hes5 := includes_es5_of_select h
  have hbegins : lexeme <+: '/' :: tail := ⟨rest, (append_of_select h).2⟩
  rw [select_slash] at h
  cases hcomment : firstOf commentRules edition context ('/' :: tail) with
  | some found =>
    rw [hcomment, Option.some_or] at h
    rw [h] at hcomment
    obtain ⟨hkind, hopens⟩ := comment_of_firstOf hcomment
    exact ⟨iff_of_true hkind hopens, fun hne => absurd hkind hne⟩
  | none =>
    have hnot : ¬ OpensComment lexeme := fun hopens =>
      (firstOf_commentRules_slash_eq_none_iff hes5).1 hcomment
        (hopens.imp (·.trans hbegins) (·.trans hbegins))
    rw [hcomment, Option.none_or] at h
    cases hregExp : firstOf regExpRules edition context ('/' :: tail) with
    | some found =>
      rw [hregExp, Option.some_or] at h
      rw [h] at hregExp
      obtain ⟨hexpression, rfl, hfound⟩ := literal_of_firstOf hregExp
      refine ⟨iff_of_false (by decide) hnot, fun _ => ⟨fun htrue => ?_, fun _ => ⟨rfl, hfound⟩⟩⟩
      rw [hexpression] at htrue
      cases htrue
    | none =>
      rw [hregExp, Option.none_or] at h
      obtain ⟨rfl, hspelling⟩ := operator_of_firstOf h
      refine ⟨iff_of_false (by decide) hnot, fun _ => ⟨fun _ => ⟨rfl, hspelling⟩, fun hfalse => ?_⟩⟩
      exact absurd hregExp (firstOf_regExpRules_slash hes5 hfalse)

/-- A regular expression is only found unfinished where a slash cannot divide. -/
theorem of_fail_regExp (context : Context) : ∀ rule ∈ rules, rule.guard context = true →
    rule.action = .fail (.unfinished .regExp) → context.expression = false := by
  simp only [rules, blankRules, numeralRules, quotationRules, templateRules, wordRules,
    commentRules, regExpRules, operatorRules, punctuationRules, List.forall_mem_append,
    List.forall_mem_cons, List.not_mem_nil, false_imp_iff, implies_true, and_true, reduceCtorEq,
    Action.fail.injEq, Diagnosis.unfinished.injEq, Bool.not_eq_true', imp_self, forall_const]

theorem Lexer.expression_of_unfinished_regExp {lexer after : Lexer} {span : Span}
    (h : lexer.next = (some (.error (.unfinished .regExp span)), after)) :
    lexer.context.expression = false := by
  generalize hfault : Fault.unfinished .regExp span = fault at h
  cases call_of_next h with
  | limited => cases hfault
  | unrecognized => cases hfault
  | @failed _ diagnosis _ _ hselect =>
    cases diagnosis with
    | malformedNumeral => cases hfault
    | unmatchedBrace => cases hfault
    | unfinished =>
      obtain ⟨rfl, -⟩ := Fault.unfinished.inj hfault
      obtain ⟨rule, hmem, -, hguard, haction, -⟩ := exists_of_select hselect
      exact of_fail_regExp lexer.context rule hmem hguard haction

/-- A token that begins with a slash is a comment exactly where the slash opens one. Any other is an
operator exactly where the nearest token before it that is not trivia can end an expression, and else a
regular expression. An unfinished regular expression too is only found where no such token stands. -/
theorem slash_begins (source : Text) (settings : Settings) :
    (∀ before token later,
      (Lexer.ofText source settings).run.tokens = before ++ token :: later →
      token.text.head? = some '/' →
        (token.kind = .comment ↔ OpensComment token.text) ∧
        (token.kind ≠ .comment →
          (token.kind = .operator ↔ DividesAfter before) ∧
          (token.kind = .operator → token.text = ['/'] ∨ token.text = ['/', '=']) ∧
          (token.kind ≠ .operator →
            token.kind = .literal ∧ RegExp.regExp token.text = some (token.text, [])))) ∧
    ∀ span, (Lexer.ofText source settings).run.fault = some (.unfinished .regExp span) →
      ¬ DividesAfter (Lexer.ofText source settings).run.tokens := by
  constructor
  · intro before token later hrun hslash
    obtain ⟨now, after, hemits, hnext⟩ := Lexer.exists_emits_of_run hrun
    obtain ⟨-, kind, lexeme, rest, hselect, rfl, -⟩ := Lexer.next_eq_token_iff.1 hnext
    obtain ⟨tail, htext⟩ := List.head?_eq_some_iff.1 hslash
    have happend : lexeme ++ rest = now.cursor.rest := (append_of_select hselect).2
    have hahead : now.cursor.rest = '/' :: (tail ++ rest) := by
      rw [← happend, show lexeme = '/' :: tail from htext, List.cons_append]
    rw [Lexer.selection, hahead] at hselect
    obtain ⟨hcomment, hother⟩ := slash_of_select hselect
    refine ⟨hcomment, fun hne => ?_⟩
    obtain ⟨hdivides, hbegins⟩ := hother hne
    rw [← hemits.recalls.expression_iff]
    cases hexpression : now.context.expression with
    | true =>
      obtain ⟨hkind, hspelling⟩ := hdivides hexpression
      exact ⟨iff_of_true hkind rfl, fun _ => hspelling, fun hnot => absurd hkind hnot⟩
    | false =>
      obtain ⟨rfl, hfound⟩ := hbegins hexpression
      refine ⟨iff_of_false ?_ Bool.false_ne_true, ?_, fun _ => ⟨rfl, hfound⟩⟩
      · exact nofun
      · exact nofun
  · intro span hfault
    obtain ⟨now, hemits, hnext⟩ := Lexer.exists_emits_of_fault hfault
    rw [← hemits.recalls.expression_iff, Lexer.expression_of_unfinished_regExp hnext]
    decide

/-- The same two characters begin a regular expression at the start of a source and are an operator behind that
expression. Behind the operator a slash begins an expression again, which is unfinished. -/
theorem slash_begins_slashEqual :
    let regExp : Token := ⟨.literal, ['/', '=', '/'], ⟨0, 3, ⟨1, 1⟩⟩⟩
    let first : Token := ⟨.whitespace, [' '], ⟨3, 4, ⟨1, 4⟩⟩⟩
    let divide : Token := ⟨.operator, ['/', '='], ⟨4, 6, ⟨1, 5⟩⟩⟩
    let second : Token := ⟨.whitespace, [' '], ⟨6, 7, ⟨1, 7⟩⟩⟩
    let run := (Lexer.ofText ['/', '=', '/', ' ', '/', '=', ' ', '/'] {}).run
    run.tokens = [regExp, first, divide, second] ∧
      run.fault = some (.unfinished .regExp ⟨7, 8, ⟨1, 8⟩⟩) ∧
      ¬ DividesAfter [] ∧ DividesAfter [regExp, first] ∧
      ¬ DividesAfter [regExp, first, divide, second] := by
  intro regExp first divide second run
  have htokens : run.tokens = [regExp, first, divide, second] := by decide +kernel
  have hfault : run.fault = some (.unfinished .regExp ⟨7, 8, ⟨1, 8⟩⟩) := by decide +kernel
  obtain ⟨hbegins, hunfinished⟩ := slash_begins ['/', '=', '/', ' ', '/', '=', ' ', '/'] {}
  obtain ⟨hliteral, -⟩ := (hbegins [] regExp [first, divide, second] htokens rfl).2 (by decide)
  obtain ⟨hoperator, -⟩ := (hbegins [regExp, first] divide [second] htokens rfl).2 (by decide)
  have hnot : ¬ DividesAfter run.tokens := hunfinished _ hfault
  rw [htokens] at hnot
  exact ⟨htokens, hfault, fun h => absurd (hliteral.2 h) (by decide), hoperator.1 rfl, hnot⟩

end EcmaLex
