import EcmaLex.Proofs.Introduced
import EcmaLex.Proofs.Rest.Run

/-!
# Where words and numerals end

A reserved word and a numeral end where no plain character of a name follows, and a name ends where no
unit of a name follows. Two of them never stand directly behind each other, but for one case: a reserved
word and a numeral look only for plain characters behind them, so a name that begins with an escape can
follow them.
-/

namespace EcmaLex

open Matcher

/-- A keyword or a fixed literal. -/
def Token.IsReserved (token : Token) : Prop :=
  token.kind = .keyword ∨ token.kind = .literal ∧ token.text ∈ Name.fixedLiterals

/-- A reserved word or a name. -/
def Token.IsWord (token : Token) : Prop :=
  token.IsReserved ∨ token.kind = .identifier

/-- A numeral is told from the other literals by its first character. -/
def Token.IsNumeral (token : Token) : Prop :=
  token.kind = .literal ∧ token.text.head?.any opensNumeral = true

namespace Name

/-- The text begins with an escape that can begin a name. -/
def BeginsEscaped (text : Text) : Prop :=
  ∃ high low c, ['\\', 'u', '0', '0', high, low] <+: text ∧ escaped? high low = some c ∧
    isNameStart c = true

/-- No unit goes on behind an identifier. -/
theorem nameUnit_of_identifier {text lexeme rest : Text} (h : identifier text = some (lexeme, rest)) :
    nameUnit isNamePart rest = none := by
  have hstop : ∀ text, nameUnit isNamePart (continuation text).2 = none := by
    intro text
    fun_induction continuation text with
    | case1 text unit rest hunit ih => exact ih
    | case2 text hnone => exact hnone
  unfold identifier at h
  split at h
  · next unit tail _ =>
    obtain rfl : (continuation tail).2 = rest := congrArg Prod.snd (Option.some.inj h)
    exact hstop tail
  · cases h

theorem nameUnit_mono {p q : Char → Bool} (hpq : ∀ c, p c = true → q c = true) {text : Text}
    {found : Text × Text} (h : nameUnit p text = some found) : nameUnit q text = some found := by
  by_cases hescape : ∃ high low tail, text = '\\' :: 'u' :: '0' :: '0' :: high :: low :: tail
  · obtain ⟨high, low, tail, rfl⟩ := hescape
    obtain ⟨hany, hfound⟩ := Option.ite_none_right_eq_some.1 h
    rw [Option.any_eq_true] at hany
    refine Option.ite_none_right_eq_some.2 ⟨?_, hfound⟩
    exact Option.any_eq_true _ _ |>.2 (hany.imp fun c hc => ⟨hc.1, hpq c hc.2⟩)
  · have hplain := fun high low tail heq => hescape ⟨high, low, tail, heq⟩
    rw [nameUnit_plain hplain] at h ⊢
    cases text with
    | nil => cases h
    | cons c tail =>
      obtain ⟨hc, hfound⟩ := Option.ite_none_right_eq_some.1 h
      exact Option.ite_none_right_eq_some.2 ⟨hpq c hc, hfound⟩

/-- A name begins with a plain character or with an escape. -/
theorem begins_of_identifier {text lexeme rest : Text} (h : identifier text = some (lexeme, rest)) :
    lexeme.head?.any isNameStart = true ∨ BeginsEscaped lexeme := by
  unfold identifier at h
  split at h
  · next unit tail hunit =>
    obtain ⟨rfl, -⟩ := Prod.mk.inj (Option.some.inj h)
    rcases cases_of_nameUnit hunit with ⟨c, rfl, hc⟩ | ⟨high, low, c, rfl, hescaped, hc⟩
    · exact .inl hc
    · exact .inr ⟨high, low, c, List.prefix_append _ _, hescaped, hc⟩
  · cases h

end Name

/-- A rule for numerals gives a literal that stands alone, or a fault. -/
theorem action_of_mem_numeralRules : ∀ rule ∈ numeralRules,
    rule.action = .emit .literal ∧
        (∃ matcher : Matcher, rule.matcher = matcher.standalone isNamePart) ∨
      ∃ problem, rule.action = .fail (.malformedNumeral problem) := by
  simp only [numeralRules, List.forall_mem_cons, List.not_mem_nil, false_imp_iff, implies_true,
    and_true, true_and]
  exact ⟨.inl ⟨_, rfl⟩, .inl ⟨_, rfl⟩, .inl ⟨_, rfl⟩, .inl ⟨_, rfl⟩,
    .inr ⟨_, rfl⟩, .inr ⟨_, rfl⟩, .inr ⟨_, rfl⟩, .inr ⟨_, rfl⟩, .inr ⟨_, rfl⟩, .inr ⟨_, rfl⟩,
    .inr ⟨_, rfl⟩, .inl ⟨_, rfl⟩, .inr ⟨_, rfl⟩, .inr ⟨_, rfl⟩, .inl ⟨_, rfl⟩,
    .inr ⟨_, rfl⟩⟩

/-- A literal is a numeral, a fixed literal, or stands between quotation marks or slashes. -/
theorem matcher_of_emit_literal : ∀ rule ∈ rules, rule.action = .emit .literal →
    rule.matcher.OpensOn opensNumeral ∧
        (∃ matcher : Matcher, rule.matcher = matcher.standalone isNamePart) ∨
      rule.matcher = Name.wordIn Name.fixedLiterals ∨
      rule.matcher.OpensOn fun c => opensQuotation c || c == '/' := by
  have hnumeral : ∀ rule ∈ numeralRules, rule.action = .emit .literal →
      rule.matcher.OpensOn opensNumeral ∧
        ∃ matcher : Matcher, rule.matcher = matcher.standalone isNamePart := by
    intro rule hmem haction
    rcases action_of_mem_numeralRules rule hmem with ⟨-, halone⟩ | ⟨problem, hfail⟩
    · exact ⟨opensOn_numeralRules rule hmem, halone⟩
    · rw [hfail] at haction
      cases haction
  have hquotation : Quotation.string.OpensOn fun c => opensQuotation c || c == '/' :=
    Quotation.opensOn_string.mono fun c hc => (Bool.or_eq_false_iff.1 hc).1
  have hregExp : RegExp.regExp.OpensOn fun c => opensQuotation c || c == '/' :=
    RegExp.opensOn_regExp.mono fun c hc => (Bool.or_eq_false_iff.1 hc).2
  refine forall_mem_rules.2 ⟨?_, fun rule hmem haction => .inl (hnumeral rule hmem haction), ?_, ?_,
    ?_, ?_, ?_, ?_, ?_⟩
  all_goals
    simp only [blankRules, quotationRules, templateRules, wordRules, commentRules, regExpRules,
      operatorRules, punctuationRules, List.forall_mem_cons, List.not_mem_nil, false_imp_iff,
      implies_true, and_true, reduceCtorEq, Action.emit.injEq, true_imp_iff, true_or, or_true]
  · exact .inr (.inr hquotation)
  · exact .inr (.inr hregExp)

theorem matcher_of_emit_keyword : ∀ rule ∈ rules, rule.action = .emit .keyword →
    rule.matcher = Name.wordIn Name.keywords ∨
      rule.matcher = Name.wordIn Name.contextualKeywords := by
  simp only [rules, blankRules, numeralRules, quotationRules, templateRules, wordRules,
    commentRules, regExpRules, operatorRules, punctuationRules, List.forall_mem_append,
    List.forall_mem_cons, List.not_mem_nil, false_imp_iff, implies_true, and_true, reduceCtorEq,
    Action.emit.injEq, true_or, or_true]

theorem matcher_of_emit_identifier : ∀ rule ∈ rules, rule.action = .emit .identifier →
    rule.matcher = Name.identifier := by
  simp only [rules, blankRules, numeralRules, quotationRules, templateRules, wordRules,
    commentRules, regExpRules, operatorRules, punctuationRules, List.forall_mem_append,
    List.forall_mem_cons, List.not_mem_nil, false_imp_iff, implies_true, and_true, reduceCtorEq,
    Action.emit.injEq]

theorem Matcher.OpensOn.of_some {matcher : Matcher} {p : Char → Bool} (h : matcher.OpensOn p)
    {c : Char} {rest : Text} {found : Text × Text} (hfound : matcher (c :: rest) = some found) :
    p c = true := by
  rw [← Bool.not_eq_false]
  intro hc
  rw [h rest hc] at hfound
  cases hfound

/-- Every reserved word begins as a name does. -/
theorem Name.begins_of_mem_words : ∀ word ∈ fixedLiterals ++ keywords ++ contextualKeywords,
    word.head?.any isNameStart = true := by
  decide +kernel

/-- No fixed literal begins as another literal does. -/
theorem Name.begins_of_mem_fixedLiterals : ∀ word ∈ fixedLiterals,
    word.head?.any (fun c => opensNumeral c || (opensQuotation c || c == '/')) = false := by
  decide +kernel

section Selected

variable {lexer : Lexer} {kind : TokenKind} {lexeme rest : Text}

/-- A fixed literal is found by the rule for fixed literals. -/
theorem wordIn_of_fixedLiteral
    (hselect : lexer.selection = some { action := .emit .literal, lexeme, rest })
    (hfixed : lexeme ∈ Name.fixedLiterals) :
    Name.wordIn Name.fixedLiterals (lexeme ++ rest) = some (lexeme, rest) := by
  obtain ⟨rule, hmem, -, -, haction, hmatch⟩ := exists_of_select hselect
  rw [← (append_of_select hselect).2] at hmatch
  have hbegins := Name.begins_of_mem_fixedLiterals lexeme hfixed
  obtain ⟨c, tail, rfl⟩ := List.exists_cons_of_ne_nil (append_of_select hselect).1
  obtain ⟨hnumeral, hother⟩ := Bool.or_eq_false_iff.1 hbegins
  rcases matcher_of_emit_literal rule hmem haction with ⟨hopens, -⟩ | hword | hopens
  · rw [hopens.of_some hmatch] at hnumeral
    cases hnumeral
  · rwa [hword] at hmatch
  · have hopened := hopens.of_some hmatch
    rw [hother] at hopened
    cases hopened

/-- A reserved word begins as a name does, and is the whole run of plain characters there. -/
theorem run_of_isReserved
    (hselect : lexer.selection = some { action := .emit kind, lexeme, rest })
    (hreserved : (lexer.tokenOf kind lexeme).IsReserved) :
    lexeme.head?.any isNameStart = true ∧
      Text.run isNamePart (lexeme ++ rest) = (lexeme, rest) := by
  rcases hreserved with hkind | ⟨hkind, hfixed⟩
  · obtain rfl : kind = .keyword := hkind
    obtain ⟨rule, hmem, -, -, haction, hmatch⟩ := exists_of_select hselect
    rw [← (append_of_select hselect).2] at hmatch
    rcases matcher_of_emit_keyword rule hmem haction with hwords | hwords
    · rw [hwords] at hmatch
      obtain ⟨hword, hrun⟩ := Name.wordIn_eq_some_iff.1 hmatch
      exact ⟨Name.begins_of_mem_words _ (by simp [hword]), hrun⟩
    · rw [hwords] at hmatch
      obtain ⟨hword, hrun⟩ := Name.wordIn_eq_some_iff.1 hmatch
      exact ⟨Name.begins_of_mem_words _ (by simp [hword]), hrun⟩
  · obtain rfl : kind = .literal := hkind
    obtain ⟨hword, hrun⟩ := Name.wordIn_eq_some_iff.1 (wordIn_of_fixedLiteral hselect hfixed)
    exact ⟨Name.begins_of_mem_words _ (by simp [hword]), hrun⟩

/-- No plain character of a name goes on behind a numeral. -/
theorem head?_of_isNumeral
    (hselect : lexer.selection = some { action := .emit kind, lexeme, rest })
    (hnumeral : (lexer.tokenOf kind lexeme).IsNumeral) : rest.head?.any isNamePart = false := by
  obtain ⟨hkind, hhead⟩ := hnumeral
  obtain rfl : kind = .literal := hkind
  obtain ⟨rule, hmem, -, -, haction, hmatch⟩ := exists_of_select hselect
  rw [← (append_of_select hselect).2] at hmatch
  rcases matcher_of_emit_literal rule hmem haction with ⟨-, matcher, halone⟩ | hword | hopens
  · rw [halone] at hmatch
    exact (standalone_eq_some_iff.1 hmatch).2
  · rw [hword, Name.wordIn_eq_some_iff, Text.run_eq_iff] at hmatch
    exact hmatch.2.2
  · obtain ⟨c, tail, rfl⟩ := List.exists_cons_of_ne_nil (append_of_select hselect).1
    have hopened := hopens.of_some hmatch
    have hopens' : opensNumeral c = true := hhead
    simp only [opensQuotation, Bool.or_eq_true, beq_iff_eq] at hopened
    rcases hopened with (rfl | rfl) | rfl
    · exact absurd hopens' (by decide)
    · exact absurd hopens' (by decide)
    · exact absurd hopens' (by decide)

/-- No plain character of a name goes on behind a reserved word or a numeral. -/
theorem head?_of_isReserved_or_isNumeral
    (hselect : lexer.selection = some { action := .emit kind, lexeme, rest })
    (h : (lexer.tokenOf kind lexeme).IsReserved ∨ (lexer.tokenOf kind lexeme).IsNumeral) :
    rest.head?.any isNamePart = false := by
  rcases h with hreserved | hnumeral
  · exact (Text.run_eq_iff.1 (run_of_isReserved hselect hreserved).2).2
  · exact head?_of_isNumeral hselect hnumeral

theorem identifier_of_select
    (hselect : lexer.selection = some { action := .emit .identifier, lexeme, rest }) :
    Name.identifier (lexeme ++ rest) = some (lexeme, rest) := by
  obtain ⟨rule, hmem, -, -, haction, hmatch⟩ := exists_of_select hselect
  rwa [← (append_of_select hselect).2, matcher_of_emit_identifier rule hmem haction] at hmatch

/-- Every word begins with a unit that can begin a name, and a reserved word with a plain one. -/
theorem nameUnit_of_isWord
    (hselect : lexer.selection = some { action := .emit kind, lexeme, rest })
    (hword : (lexer.tokenOf kind lexeme).IsWord) :
    Name.nameUnit isNameStart (lexeme ++ rest) ≠ none ∧
      (kind ≠ .identifier → (lexeme ++ rest).head?.any isNameStart = true) := by
  rcases hword with hreserved | hkind
  · obtain ⟨hbegins, -⟩ := run_of_isReserved hselect hreserved
    obtain ⟨c, tail, rfl⟩ := List.exists_cons_of_ne_nil (append_of_select hselect).1
    have hhead : (c :: tail ++ rest).head?.any isNameStart = true := hbegins
    refine ⟨fun hnone => ?_, fun _ => hhead⟩
    rw [Name.nameUnit_of_head (by decide) hhead, one_eq_none_iff, hhead] at hnone
    cases hnone
  · obtain rfl : kind = .identifier := hkind
    have hfound := identifier_of_select hselect
    refine ⟨fun hnone => ?_, fun hne => absurd rfl hne⟩
    rw [Name.identifier_eq_none_iff.2 hnone] at hfound
    cases hfound

end Selected

/-- Of two words, or a numeral and a word, that stand directly behind each other, the second is a name
that begins with an escape, and the first is no name. -/
theorem begins_of_adjacent {now mid after : Lexer} {token next : Token}
    (hfirst : now.next = (some (.ok token), mid)) (hsecond : mid.next = (some (.ok next), after))
    (htoken : token.IsWord ∨ token.IsNumeral) (hnext : next.IsWord) :
    token.kind ≠ .identifier ∧ next.kind = .identifier ∧ Name.BeginsEscaped next.text := by
  obtain ⟨-, kind, lexeme, rest, hselect, rfl, rfl⟩ := Lexer.next_eq_token_iff.1 hfirst
  obtain ⟨-, kind', lexeme', rest', hselect', rfl, rfl⟩ := Lexer.next_eq_token_iff.1 hsecond
  obtain ⟨hunit, hplain⟩ := nameUnit_of_isWord hselect' hnext
  have happend : lexeme' ++ rest' = rest := (append_of_select hselect').2
  rw [happend] at hunit hplain
  have hnotName : kind ≠ .identifier := by
    rintro rfl
    obtain ⟨found, hfound⟩ := Option.ne_none_iff_exists'.1 hunit
    have hnone := Name.nameUnit_of_identifier (identifier_of_select hselect)
    rw [Name.nameUnit_mono (fun _ => isNamePart_of_isNameStart) hfound] at hnone
    cases hnone
  have hstop : rest.head?.any isNameStart = false := by
    have hreserved : (now.tokenOf kind lexeme).IsReserved ∨ (now.tokenOf kind lexeme).IsNumeral :=
      htoken.imp_left (Or.resolve_right · hnotName)
    have hpart := head?_of_isReserved_or_isNumeral hselect hreserved
    rw [← Bool.not_eq_true, Option.any_eq_true] at hpart ⊢
    exact fun hstart => hpart (hstart.imp fun _ hc => ⟨hc.1, isNamePart_of_isNameStart hc.2⟩)
  have hname : kind' = .identifier := by
    by_contra hne
    rw [hplain hne] at hstop
    cases hstop
  refine ⟨hnotName, hname, ?_⟩
  subst hname
  rcases Name.begins_of_identifier (identifier_of_select hselect') with hbegins | hescaped
  · rw [← happend, List.head?_append_of_ne_nil _ (append_of_select hselect').1, hbegins] at hstop
    cases hstop
  · exact hescaped

/-- A numeral begins here: a digit, or a point and a digit. -/
def Numeral.Begins (text : Text) : Prop :=
  text.head?.any Char.isDigit = true ∨ ∃ c rest, text = '.' :: c :: rest ∧ c.isDigit = true

theorem Numeral.Begins.ne_nil {text : Text} (h : Begins text) : text ≠ [] := by
  rintro rfl
  rcases h with hdigit | ⟨c, rest, heq, -⟩
  · cases hdigit
  · cases heq

theorem Numeral.Begins.mantissa_ne_none {text : Text} (h : Begins text) : mantissa text ≠ none := by
  rcases h with hdigit | ⟨c, rest, rfl, hc⟩
  · refine Numeral.mantissa_ne_none fun hnone => ?_
    rw [digits, manyOf_eq_none_iff, hdigit] at hnone
    cases hnone
  · rw [mantissa_point, Ne, Option.map_eq_none_iff, digits, manyOf_eq_none_iff]
    exact fun hnone => Bool.false_ne_true (hnone.symm.trans hc)

/-- What begins a numeral is neither blank nor the end of a line. -/
theorem firstOf_blankRules_of_begins {edition : Edition} {context : Context} {text : Text}
    (h : Numeral.Begins text) : firstOf blankRules edition context text = none := by
  rcases h with hdigit | ⟨c, rest, rfl, -⟩
  · cases text with
    | nil => cases hdigit
    | cons c rest =>
      have hgap : isGap c = false := Numeral.isGap_of_isDigit c hdigit
      exact firstOf_eq_none opensOn_blankRules hgap
  · exact firstOf_eq_none opensOn_blankRules (by decide)

/-- Where a numeral begins, the next token is that numeral and no name goes on behind it, or the scan stops
at a malformed numeral. -/
theorem next_of_begins {lexer : Lexer} (hlive : lexer.Live)
    (hes5 : lexer.settings.edition.includes .es5 = true) (hbegins : Numeral.Begins lexer.cursor.rest) :
    (∃ token after, lexer.next = (some (.ok token), after) ∧ token.IsNumeral ∧
        after.cursor.rest.head?.any isNamePart = false) ∨
      ∃ problem lexeme span final,
        lexer.next = (some (.error (.malformedNumeral problem lexeme span)), final) := by
  have hanswers : firstOf numeralRules lexer.settings.edition lexer.context lexer.cursor.rest ≠ none :=
    fun hnone => hbegins.mantissa_ne_none ((Numeral.firstOf_numeralRules_eq_none_iff hes5).1 hnone)
  obtain ⟨⟨action, lexeme, rest⟩, hfound⟩ := Option.ne_none_iff_exists'.1 hanswers
  have hselect : lexer.selection = some { action, lexeme, rest } := by
    rw [Lexer.selection, select_eq, firstOf_blankRules_of_begins hbegins, Option.none_or, hfound,
      Option.some_or]
  obtain ⟨rule, hmem, -, haction, hmatch⟩ := exists_of_firstOf hfound
  rcases action_of_mem_numeralRules rule hmem with ⟨hemit, matcher, halone⟩ | ⟨problem, hfail⟩
  · left
    obtain rfl : action = .emit .literal := haction.symm.trans hemit
    have hopens : lexeme.head?.any opensNumeral = true := by
      obtain ⟨hne, happend⟩ := append_of_select hselect
      obtain ⟨c, tail, rfl⟩ := List.exists_cons_of_ne_nil hne
      rw [← happend] at hmatch
      exact (opensOn_numeralRules rule hmem).of_some hmatch
    refine ⟨_, _, (Lexer.Call.emitted hlive hselect).next_eq, ⟨rfl, hopens⟩, ?_⟩
    rw [halone] at hmatch
    exact (standalone_eq_some_iff.1 hmatch).2
  · right
    obtain rfl : action = .fail (.malformedNumeral problem) := haction.symm.trans hfail
    exact ⟨problem, lexeme, _, _, (Lexer.Call.failed hlive hselect).next_eq⟩

/-- A token given where a numeral begins is that numeral. -/
theorem isNumeral_of_next {lexer after : Lexer} {token : Token}
    (hnext : lexer.next = (some (.ok token), after)) (hbegins : Numeral.Begins lexer.cursor.rest) :
    token.IsNumeral ∧ after.cursor.rest.head?.any isNamePart = false := by
  obtain ⟨hlive, _, _, _, hselect, -, -⟩ := Lexer.next_eq_token_iff.1 hnext
  rcases next_of_begins hlive (includes_es5_of_select hselect) hbegins with
    ⟨token', after', hnext', hstands⟩ | ⟨_, _, _, _, hfault⟩
  · rw [hnext] at hnext'
    simp only [Prod.mk.injEq, Option.some.injEq, Except.ok.injEq] at hnext'
    obtain ⟨rfl, rfl⟩ := hnext'
    exact hstands
  · rw [hnext] at hfault
    cases hfault

/-- A run that gives nothing where a numeral begins has stopped at a malformed numeral. -/
theorem fault_of_begins {lexer : Lexer} (hlive : lexer.Live)
    (hes5 : lexer.settings.edition.includes .es5 = true) (hbegins : Numeral.Begins lexer.cursor.rest)
    (hnothing : lexer.run.tokens = []) :
    ∃ problem lexeme span, lexer.run.fault = some (.malformedNumeral problem lexeme span) := by
  rcases next_of_begins hlive hes5 hbegins with
    ⟨token, after, hnext, -⟩ | ⟨problem, lexeme, span, final, hnext⟩
  · rw [(Lexer.emits_singleton hnext).run_eq] at hnothing
    cases hnothing
  · rw [Lexer.run_of_next_error hnext]
    exact ⟨problem, lexeme, span, rfl⟩

/-- In every scan, a reserved word, a name or a numeral is directly followed by none of a reserved word and
a name, but that a name which begins with an escape can follow a reserved word or a numeral. A reserved
word is the whole run of plain characters where it stands. Where a numeral begins, the scan gives it, with
no plain character of a name behind it, or stops there: because the numeral is malformed, unless the
iterations are used up or the edition is before the oldest one. -/
theorem words_stand_apart (source : Text) (settings : Settings) :
    (∀ before token next later,
      (Lexer.ofText source settings).run.tokens = before ++ token :: next :: later →
      token.IsWord ∨ token.IsNumeral → next.IsWord →
        token.kind ≠ .identifier ∧ next.kind = .identifier ∧ Name.BeginsEscaped next.text) ∧
    (∀ before token later,
      (Lexer.ofText source settings).run.tokens = before ++ token :: later → token.IsReserved →
        ∃ rest, Token.texts before ++ (token.text ++ rest) = source ∧
          Text.run isNamePart (token.text ++ rest) = (token.text, rest)) ∧
    (∀ before later ahead,
      (Lexer.ofText source settings).run.tokens = before ++ later →
      Token.texts before ++ ahead = source → Numeral.Begins ahead →
        (∃ token later' rest, later = token :: later' ∧ token.IsNumeral ∧
          token.text ++ rest = ahead ∧ rest.head?.any isNamePart = false) ∨
        later = [] ∧
          ((∃ problem lexeme span, (Lexer.ofText source settings).run.fault =
              some (.malformedNumeral problem lexeme span)) ∨
            settings.iterationLimit.toNat ≤ before.length ∨
            settings.edition.includes .es5 = false)) := by
  refine ⟨?adjacent, ?reserved, ?numeral⟩
  case adjacent =>
    intro before token next later hrun htoken hnext
    obtain ⟨now, mid, after, -, hfirst, hsecond⟩ := Lexer.exists_emits_of_adjacent hrun
    exact begins_of_adjacent hfirst hsecond htoken hnext
  case reserved =>
    intro before token later hrun hreserved
    obtain ⟨now, after, hemits, hnext⟩ := Lexer.exists_emits_of_run hrun
    obtain ⟨-, kind, lexeme, rest, hselect, rfl, -⟩ := Lexer.next_eq_token_iff.1 hnext
    have happend : lexeme ++ rest = now.cursor.rest := (append_of_select hselect).2
    refine ⟨rest, ?_, (run_of_isReserved hselect hreserved).2⟩
    show Token.texts before ++ (lexeme ++ rest) = source
    rw [happend]
    exact hemits.texts_append
  case numeral =>
    intro before later ahead hrun htexts hbegins
    obtain ⟨last, hemits, -⟩ := Lexer.exists_emits_run (Lexer.ofText source settings)
    rw [hrun] at hemits
    obtain ⟨now, hbefore, hlater⟩ := hemits.exists_of_append
    have hahead : now.cursor.rest = ahead := by
      have hsource : Token.texts before ++ now.cursor.rest = source := hbefore.texts_append
      exact List.append_cancel_left (hsource.trans htexts.symm)
    rw [← hahead] at hbegins ⊢
    cases hlater with
    | cons hnext _ =>
      left
      obtain ⟨hnumeral, hstop⟩ := isNumeral_of_next hnext hbegins
      exact ⟨_, _, _, rfl, hnumeral, (Lexer.append_of_next hnext).2, hstop⟩
    | nil =>
      right
      refine ⟨rfl, ?_⟩
      by_cases hlimit : settings.iterationLimit.toNat ≤ before.length
      · exact .inr (.inl hlimit)
      by_cases hes5 : settings.edition.includes .es5 = true
      · left
        have hallows : (Lexer.ofText source settings).Allows (before.length + 1) :=
          ⟨rfl, by show 0 + (before.length + 1) ≤ settings.iterationLimit.toNat; omega⟩
        have hlive := (hbefore.allows hallows).live hbegins.ne_nil
        rw [hbefore.run_eq] at hrun ⊢
        exact fault_of_begins hlive (by rwa [hbefore.settings_eq]) hbegins
          (List.append_cancel_left hrun)
      · exact .inr (.inr (Bool.eq_false_iff.2 hes5))

/-- A numeral that goes on as a name does is no token. -/
theorem words_stand_apart_hexadecimal :
    let source : Text := ['a', '=', '0', 'x', 'F', 'g']
    let run := (Lexer.ofText source {}).run
    run.tokens = [⟨.identifier, ['a'], ⟨0, 1, ⟨1, 1⟩⟩⟩, ⟨.operator, ['='], ⟨1, 2, ⟨1, 2⟩⟩⟩] ∧
    ∃ problem lexeme span, run.fault = some (.malformedNumeral problem lexeme span) := by
  intro source run
  have hrun : run.tokens =
      [⟨.identifier, ['a'], ⟨0, 1, ⟨1, 1⟩⟩⟩, ⟨.operator, ['='], ⟨1, 2, ⟨1, 2⟩⟩⟩] ++ [] := by
    decide +kernel
  refine ⟨hrun, ?_⟩
  rcases (words_stand_apart source {}).2.2 _ _ ['0', 'x', 'F', 'g'] hrun rfl (.inl rfl) with
    ⟨_, _, _, hlater, -⟩ | ⟨-, hfault | hlimit | hedition⟩
  · cases hlater
  · exact hfault
  · exact absurd hlimit (by decide)
  · exact absurd hedition (by decide)

/-- Behind a keyword, a fixed literal and a numeral, an escape begins a name of its own, though all of the
text is one name in the first two cases. -/
theorem words_not_apart_escape :
    let escape : Text := ['\\', 'u', '0', '0', '6', '1']
    let after (first : Token) (size : Nat) (column : UInt32) : List Token :=
      [first, ⟨.identifier, escape, ⟨size, size + 6, ⟨1, column⟩⟩⟩]
    tokenize ('i' :: 'n' :: escape) {} = .ok (after ⟨.keyword, ['i', 'n'], ⟨0, 2, ⟨1, 1⟩⟩⟩ 2 3) ∧
    tokenize ('n' :: 'u' :: 'l' :: 'l' :: escape) {} =
      .ok (after ⟨.literal, ['n', 'u', 'l', 'l'], ⟨0, 4, ⟨1, 1⟩⟩⟩ 4 5) ∧
    tokenize ('1' :: escape) {} = .ok (after ⟨.literal, ['1'], ⟨0, 1, ⟨1, 1⟩⟩⟩ 1 2) ∧
    Name.identifier ('i' :: 'n' :: escape) = some ('i' :: 'n' :: escape, []) ∧
    Name.identifier ('n' :: 'u' :: 'l' :: 'l' :: escape) =
      some ('n' :: 'u' :: 'l' :: 'l' :: escape, []) := by
  intro escape after
  refine ⟨?_, ?_, ?_, by decide +kernel, by decide +kernel⟩
  · exact Lexer.Run.result_eq_ok_iff.2 ⟨by decide +kernel, by decide +kernel⟩
  · exact Lexer.Run.result_eq_ok_iff.2 ⟨by decide +kernel, by decide +kernel⟩
  · exact Lexer.Run.result_eq_ok_iff.2 ⟨by decide +kernel, by decide +kernel⟩

end EcmaLex
