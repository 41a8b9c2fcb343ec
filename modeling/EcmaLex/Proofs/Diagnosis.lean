import EcmaLex.Proofs.Opening
import EcmaLex.Proofs.Slash

/-!
# What is malformed gets its diagnosis

Each construct has a rule for what is whole and, right after it, one for what is only opened. So where a
construct is opened, the text ahead gets the diagnosis of that construct exactly if nothing whole stands
there: `FailsWith`. `Malformed` lists the constructs with what each is missing, and no diagnosis is given
but for these: `select_fail_iff`.
-/

namespace EcmaLex

open Matcher

/-- What is selected is a fault exactly where something is not whole, and the fault is the given one. -/
def FailsWith (selected : Option Selection) (diagnosis : Diagnosis) (unclosed : Prop) : Prop :=
  ∀ other, (∃ lexeme rest, selected = some { action := .fail other, lexeme, rest }) ↔
    other = diagnosis ∧ unclosed

variable {edition : Edition} {context : Context}

theorem failsWith_of_emit {kind : TokenKind} {lexeme rest : Text} {diagnosis : Diagnosis}
    {unclosed : Prop} (hwhole : ¬ unclosed) :
    FailsWith (some { action := .emit kind, lexeme, rest }) diagnosis unclosed := by
  intro other
  refine iff_of_false ?_ fun h => hwhole h.2
  rintro ⟨_, _, h⟩
  cases h

theorem failsWith_of_fail {lexeme rest : Text} {diagnosis : Diagnosis} {unclosed : Prop}
    (hopen : unclosed) :
    FailsWith (some { action := .fail diagnosis, lexeme, rest }) diagnosis unclosed := by
  intro other
  constructor
  · rintro ⟨_, _, h⟩
    cases h
    exact ⟨rfl, hopen⟩
  · rintro ⟨rfl, -⟩
    exact ⟨lexeme, rest, rfl⟩

/-- The rule for what is whole, right before the one for its opening. -/
theorem failsWith_firstOf {whole opened : Matcher} {since : Edition} {guard : Context → Bool}
    {kind : TokenKind} {diagnosis : Diagnosis}
    (happlies : (edition.includes since && guard context) = true) (later : List Rule) {text : Text}
    (hopened : opened text ≠ none) :
    FailsWith
      (firstOf ({ since, guard, matcher := whole, action := .emit kind } ::
        { since, guard, matcher := opened, action := .fail diagnosis } :: later) edition context text)
      diagnosis (whole text = none) := by
  obtain ⟨⟨lexeme, rest⟩, hfound⟩ := Option.ne_none_iff_exists'.1 hopened
  simp only [firstOf, List.findSome?_cons, Rule.find?, Rule.applies, happlies, if_true]
  cases hwhole : whole text with
  | some found => exact failsWith_of_emit (by simp)
  | none =>
    rw [Option.map_none, hfound]
    exact failsWith_of_fail rfl

/-- Where a quote stands, only the rules for strings answer. -/
theorem rulesOpenedBy_of_opensQuotation {quote : Char} (h : opensQuotation quote = true) :
    rulesOpenedBy quote = quotationRules := by
  simp only [opensQuotation, Bool.or_eq_true, beq_iff_eq] at h
  rcases h with rfl | rfl <;> rfl

theorem failsWith_quotation (hes5 : edition.includes .es5 = true) {quote : Char}
    (hquote : opensQuotation quote = true) (rest : Text) :
    FailsWith (select edition context (quote :: rest)) (.unfinished .string)
      (Quotation.body quote rest = none) := by
  have hwhole : Quotation.string (quote :: rest) = none ↔ Quotation.body quote rest = none := by
    have hquote' : (quote = Quotation.singleQuote || quote = Quotation.doubleQuote) = true := by
      simpa [opensQuotation] using hquote
    rw [Quotation.string, if_pos hquote', Option.map_eq_none_iff]
  have hunfinished : Quotation.unfinished (quote :: rest) ≠ none := by
    rw [Ne, Quotation.unfinished_eq_none_iff, List.head?_cons, Option.any_some, hquote]
    decide
  have hfails := @failsWith_firstOf edition context Quotation.string Quotation.unfinished .es5
    (fun _ => true) .literal (.unfinished .string) (by rw [hes5]; rfl) [] _ hunfinished
  rw [hwhole] at hfails
  rw [select_cons, rulesOpenedBy_of_opensQuotation hquote]
  exact hfails

theorem failsWith_pieceRules {guard : Context → Bool} {opening : Char}
    {kindOf : Template.Stop → TokenKind} {construct : Unfinished}
    (happlies : (edition.includes .es2015 && guard context) = true) (rest : Text) :
    FailsWith
      (firstOf (pieceRules guard opening kindOf construct) edition context (opening :: rest))
      (.unfinished construct) (Template.body rest = none) := by
  cases hbody : Template.body rest with
  | none =>
    rw [firstOf_pieceRules_open guard happlies hbody]
    exact failsWith_of_fail rfl
  | some found =>
    rw [firstOf_pieceRules_body guard happlies hbody]
    exact failsWith_of_emit (by simp)

/-- The family that answers first decides. -/
theorem FailsWith.or {first later : Option Selection} {diagnosis : Diagnosis} {unclosed : Prop}
    (h : FailsWith first diagnosis unclosed) (hanswers : first ≠ none) :
    FailsWith (first.or later) diagnosis unclosed := by
  obtain ⟨found, hfound⟩ := Option.ne_none_iff_exists'.1 hanswers
  rw [hfound] at h
  rw [hfound, Option.some_or]
  exact h

theorem failsWith_template (hes2015 : edition.includes .es2015 = true) (rest : Text) :
    FailsWith (select edition context (Template.backquote :: rest)) (.unfinished .template)
      (Template.body rest = none) := by
  have happlies : (edition.includes .es2015 && true) = true := by rw [hes2015]; rfl
  rw [select_backquote]
  exact failsWith_pieceRules happlies rest

theorem failsWith_templateSection (hes2015 : edition.includes .es2015 = true)
    (hend : context.nesting.atInterpolationEnd = true) (rest : Text) :
    FailsWith (select edition context ('}' :: rest)) (.unfinished .templateSection)
      (Template.body rest = none) := by
  have happlies : (edition.includes .es2015 && context.nesting.atInterpolationEnd) = true := by
    rw [hes2015, hend]; rfl
  rw [select_interpolationEnd rest hes2015 hend]
  exact failsWith_pieceRules happlies rest

theorem failsWith_brace (hes5 : edition.includes .es5 = true)
    (hend : edition.includes .es2015 = true → context.nesting.atInterpolationEnd = false)
    (rest : Text) :
    FailsWith (select edition context ('}' :: rest)) .unmatchedBrace (context.nesting.top = 0) := by
  have hskips : ¬ (edition.includes .es2015 && context.nesting.atInterpolationEnd) = true := by
    rw [Bool.and_eq_true]
    intro h
    rw [hend h.1] at h
    cases h.2
  rw [select_rightBrace, firstOf_templateRules_rightBrace, firstOf_pieceRules_skip hskips,
    Option.none_or]
  by_cases htop : context.nesting.top = 0
  · rw [firstOf_punctuationRules_rightBrace hes5 htop]
    exact failsWith_of_fail htop
  · rw [firstOf_punctuationRules_closes hes5 htop]
    exact failsWith_of_emit htop

theorem failsWith_comment (hes5 : edition.includes .es5 = true) (rest : Text) :
    FailsWith (select edition context ('/' :: '*' :: rest)) (.unfinished .comment)
      (Comment.blockBody rest = none) := by
  have hline : Comment.line ('/' :: '*' :: rest) = none := by
    rw [Comment.line, toLineEnd_eq_none_iff]
    simp
  have hunfinished : Comment.unfinished ('/' :: '*' :: rest) ≠ none := by
    rw [Comment.unfinished, Ne, toLineEnd_eq_none_iff]
    simp
  have hwhole : Comment.block ('/' :: '*' :: rest) = none ↔ Comment.blockBody rest = none := by
    rw [Comment.block, Option.map_eq_none_iff]
  have hfails := @failsWith_firstOf edition context Comment.block Comment.unfinished .es5
    (fun _ => true) .comment (.unfinished .comment) (by rw [hes5]; rfl) (commentRules.drop 3) _
    hunfinished
  have hafter : firstOf commentRules edition context ('/' :: '*' :: rest) =
      firstOf (commentRules.drop 1) edition context ('/' :: '*' :: rest) :=
    firstOf_cons_of_none hline (commentRules.drop 1) edition context
  have hanswers : firstOf commentRules edition context ('/' :: '*' :: rest) ≠ none := by
    rw [Ne, firstOf_commentRules_slash_eq_none_iff hes5]
    exact not_not_intro (.inr (by simp))
  rw [hwhole] at hfails
  rw [select_slash]
  rw [hafter] at hanswers ⊢
  exact FailsWith.or hfails hanswers

theorem failsWith_regExp (hes5 : edition.includes .es5 = true) (hoperand : context.expression = false)
    {rest : Text} (hcomment : ¬ OpensComment ('/' :: rest)) :
    FailsWith (select edition context ('/' :: rest)) (.unfinished .regExp)
      (RegExp.regExp ('/' :: rest) = none) := by
  have hunfinished : RegExp.unfinished ('/' :: rest) ≠ none := by
    rw [RegExp.unfinished, Ne, toLineEnd_eq_none_iff]
    simp
  have hfails := @failsWith_firstOf edition context RegExp.regExp RegExp.unfinished .es5
    (fun context => !context.expression) .literal (.unfinished .regExp)
    (by rw [hes5, hoperand]; rfl) [] _ hunfinished
  rw [select_slash, (firstOf_commentRules_slash_eq_none_iff hes5).2 hcomment, Option.none_or]
  exact FailsWith.or hfails (firstOf_regExpRules_slash hes5 hoperand)

/-- The notations of numerals come before everything else that begins as they do. -/
theorem Numeral.Reads.select_eq {text : Text} {found : Selection} (hes5 : edition.includes .es5 = true)
    (h : Numeral.Reads edition text found) : select edition context text = some found := by
  have hfound : firstOf numeralRules edition context text = some found := h.firstOf_eq hes5
  have hblank : firstOf blankRules edition context text = none := by
    obtain ⟨rule, hmem, -, -, hmatch⟩ := exists_of_firstOf hfound
    cases text with
    | nil => exact (firstOf_blankRules_eq_none_iff hes5).2 rfl
    | cons c rest =>
      have hopens := (opensOn_numeralRules rule hmem).of_some hmatch
      rw [firstOf_blankRules_eq_none_iff hes5, List.head?_cons, Option.any_some]
      simp only [opensNumeral, Bool.or_eq_true, beq_iff_eq] at hopens
      rcases hopens with hdigit | rfl
      · exact Numeral.isGap_of_isDigit c hdigit
      · decide
  rw [EcmaLex.select_eq, hblank, Option.none_or, hfound, Option.some_or]

/-- A text that begins as a construct does, without being one, and what is wrong with it. -/
inductive Malformed (edition : Edition) (context : Context) : Text → Diagnosis → Prop where
  | numeral {text lexeme rest : Text} {problem : NumeralFault}
      (h : Numeral.Reads edition text
        { action := .fail (.malformedNumeral problem), lexeme, rest }) :
      Malformed edition context text (.malformedNumeral problem)
  | string {quote : Char} {rest : Text} (hquote : opensQuotation quote = true)
      (h : Quotation.body quote rest = none) :
      Malformed edition context (quote :: rest) (.unfinished .string)
  | template {rest : Text} (hsince : edition.includes .es2015 = true)
      (h : Template.body rest = none) :
      Malformed edition context (Template.backquote :: rest) (.unfinished .template)
  | templateSection {rest : Text} (hsince : edition.includes .es2015 = true)
      (hend : context.nesting.atInterpolationEnd = true) (h : Template.body rest = none) :
      Malformed edition context ('}' :: rest) (.unfinished .templateSection)
  | comment {rest : Text} (h : Comment.blockBody rest = none) :
      Malformed edition context ('/' :: '*' :: rest) (.unfinished .comment)
  | regExp {rest : Text} (hoperand : context.expression = false)
      (hcomment : ¬ OpensComment ('/' :: rest)) (h : RegExp.regExp ('/' :: rest) = none) :
      Malformed edition context ('/' :: rest) (.unfinished .regExp)
  | brace {rest : Text}
      (hend : edition.includes .es2015 = true → context.nesting.atInterpolationEnd = false)
      (h : context.nesting.top = 0) :
      Malformed edition context ('}' :: rest) .unmatchedBrace

/-- What must stand at the start of a text, and in which edition and context, for its diagnosis. -/
def Diagnosis.Opened (edition : Edition) (context : Context) (text : Text) : Diagnosis → Prop
  | .malformedNumeral _ => Numeral.mantissa text ≠ none
  | .unfinished .string => text.head?.any opensQuotation = true
  | .unfinished .template =>
    edition.includes .es2015 = true ∧ text.head? = some Template.backquote
  | .unfinished .templateSection =>
    edition.includes .es2015 = true ∧ context.nesting.atInterpolationEnd = true ∧
      text.head? = some '}'
  | .unfinished .comment => ['/', '*'] <+: text
  | .unfinished .regExp => context.expression = false ∧ text.head? = some '/'
  | .unmatchedBrace => context.nesting.top = 0 ∧ text.head? = some '}'

/-- A failing rule that reads the text has its construct opened there. -/
theorem opened_of_fail (hes5 : edition.includes .es5 = true) {text : Text} :
    ∀ rule ∈ rules, ∀ diagnosis, rule.action = .fail diagnosis →
      rule.applies edition context = true → rule.matcher text ≠ none →
        diagnosis.Opened edition context text := by
  refine forall_mem_rules.2 ⟨?blank, ?numeral, ?quotation, ?template, ?word, ?comment, ?regExp,
    ?operator, ?punctuation⟩
  case numeral =>
    intro rule hmem diagnosis hfail happlies hmatch
    have hopened : Numeral.mantissa text ≠ none := by
      rw [Ne, ← Numeral.firstOf_numeralRules_eq_none_iff hes5, firstOf_eq_none_iff]
      exact fun hnone => hmatch (hnone rule hmem happlies)
    rcases action_of_mem_numeralRules rule hmem with ⟨hemit, -⟩ | ⟨problem, hproblem⟩
    · rw [hemit] at hfail
      cases hfail
    · obtain rfl := Action.fail.inj (hproblem.symm.trans hfail)
      exact hopened
  all_goals
    simp only [blankRules, quotationRules, templateRules, wordRules, commentRules, regExpRules,
      operatorRules, punctuationRules, List.forall_mem_cons, List.not_mem_nil, false_imp_iff,
      implies_true, and_true, true_and, reduceCtorEq, Action.fail.injEq, forall_eq', Rule.applies,
      hes5, forall_const, Bool.and_eq_true, Diagnosis.Opened]
  case quotation =>
    rw [Ne, Quotation.unfinished_eq_none_iff, Bool.not_eq_false]
    exact id
  case template =>
    rw [Template.unfinished, Template.unfinishedSection]
    simp only [Ne, toLineEnd_eq_none_iff, singleton_prefix_iff, not_not]
    exact ⟨fun hsince hhead => ⟨hsince, hhead⟩, fun h hhead => ⟨h.1, h.2, hhead⟩⟩
  case comment =>
    rw [Comment.unfinished, Ne, toLineEnd_eq_none_iff, not_not]
    exact id
  case regExp =>
    rw [RegExp.unfinished, Ne, toLineEnd_eq_none_iff, singleton_prefix_iff, not_not,
      Bool.not_eq_true']
    exact fun hoperand hhead => ⟨hoperand, hhead⟩
  case punctuation =>
    rw [Ne, exactly_eq_none_iff, singleton_prefix_iff, not_not, beq_iff_eq]
    exact fun htop hhead => ⟨htop, hhead⟩

/-- Where a construct is opened and its diagnosis is given, it is malformed. -/
theorem malformed_of_select (hes5 : edition.includes .es5 = true) {text lexeme rest : Text}
    {diagnosis : Diagnosis}
    (hselect : select edition context text = some { action := .fail diagnosis, lexeme, rest }) :
    Malformed edition context text diagnosis := by
  obtain ⟨rule, hmem, hsince, hguard, haction, hmatch⟩ := exists_of_select hselect
  have happlies : rule.applies edition context = true := by rw [Rule.applies, hsince, hguard]; rfl
  have hopened : diagnosis.Opened edition context text :=
    opened_of_fail hes5 rule hmem diagnosis haction happlies
      (Option.ne_none_iff_exists'.2 ⟨_, hmatch⟩)
  cases diagnosis with
  | malformedNumeral problem =>
    have hnotation : ∃ found, Numeral.Reads edition text found := Numeral.exists_reads hopened
    obtain ⟨found, hreads⟩ := hnotation
    rw [hreads.select_eq hes5, Option.some.injEq] at hselect
    rw [hselect] at hreads
    exact .numeral hreads
  | unfinished construct =>
    cases construct with
    | string =>
      obtain ⟨quote, hquote, hopens⟩ := (Option.any_eq_true _ _).1 hopened
      obtain ⟨tail, rfl⟩ := List.head?_eq_some_iff.1 hquote
      exact .string hopens ((failsWith_quotation hes5 hopens tail _).1 ⟨_, _, hselect⟩).2
    | template =>
      obtain ⟨hes2015, hhead⟩ := hopened
      obtain ⟨tail, rfl⟩ := List.head?_eq_some_iff.1 hhead
      exact .template hes2015 ((failsWith_template hes2015 tail _).1 ⟨_, _, hselect⟩).2
    | templateSection =>
      obtain ⟨hes2015, hend, hhead⟩ := hopened
      obtain ⟨tail, rfl⟩ := List.head?_eq_some_iff.1 hhead
      exact .templateSection hes2015 hend
        ((failsWith_templateSection hes2015 hend tail _).1 ⟨_, _, hselect⟩).2
    | comment =>
      obtain ⟨tail, rfl⟩ := hopened
      exact .comment ((failsWith_comment hes5 tail _).1 ⟨_, _, hselect⟩).2
    | regExp =>
      obtain ⟨hoperand, hhead⟩ := hopened
      obtain ⟨tail, rfl⟩ := List.head?_eq_some_iff.1 hhead
      have hcomment : ¬ OpensComment ('/' :: tail) := by
        -- A comment comes first, and its only fault is another one.
        intro hopens
        have hanswers : firstOf commentRules edition context ('/' :: tail) ≠ none := fun hnone =>
          (firstOf_commentRules_slash_eq_none_iff hes5).1 hnone hopens
        obtain ⟨found, hfound⟩ := Option.ne_none_iff_exists'.1 hanswers
        rw [select_slash, hfound, Option.some_or, Option.some.injEq] at hselect
        obtain ⟨other, hother, -, hfail, -⟩ := exists_of_firstOf hfound
        have hact : ∀ rule ∈ commentRules, rule.action ≠ .fail (.unfinished .regExp) := by
          simp [commentRules]
        exact hact other hother (by rw [hfail, hselect])
      exact .regExp hoperand hcomment
        ((failsWith_regExp hes5 hoperand hcomment _).1 ⟨_, _, hselect⟩).2
  | unmatchedBrace =>
    obtain ⟨htop, hhead⟩ := hopened
    obtain ⟨tail, rfl⟩ := List.head?_eq_some_iff.1 hhead
    refine .brace (fun hes2015 => ?_) htop
    -- At the end of an interpolation a right brace is diagnosed as a section of a template.
    rw [Bool.eq_false_iff]
    intro hend
    cases ((failsWith_templateSection hes2015 hend tail _).1 ⟨_, _, hselect⟩).1

/-- A diagnosis is given exactly where the text ahead is malformed in the way that it says. -/
theorem select_fail_iff (hes5 : edition.includes .es5 = true) {text : Text} {diagnosis : Diagnosis} :
    (∃ lexeme rest, select edition context text =
        some { action := .fail diagnosis, lexeme, rest }) ↔
      Malformed edition context text diagnosis := by
  constructor
  · rintro ⟨lexeme, rest, hselect⟩
    exact malformed_of_select hes5 hselect
  · intro hmalformed
    cases hmalformed with
    | numeral h => exact ⟨_, _, h.select_eq hes5⟩
    | string hquote h => exact (failsWith_quotation hes5 hquote _ _).2 ⟨rfl, h⟩
    | template hsince h => exact (failsWith_template hsince _ _).2 ⟨rfl, h⟩
    | templateSection hsince hend h => exact (failsWith_templateSection hsince hend _ _).2 ⟨rfl, h⟩
    | comment h => exact (failsWith_comment hes5 _ _).2 ⟨rfl, h⟩
    | regExp hoperand hcomment h => exact (failsWith_regExp hes5 hoperand hcomment _).2 ⟨rfl, h⟩
    | brace hend h => exact (failsWith_brace hes5 hend _ _).2 ⟨rfl, h⟩

/-- In every edition from the oldest on, no rule answers exactly where nothing begins, whatever the context
is, and everything malformed gets its own diagnosis. -/
theorem dispatch_total (hes5 : edition.includes .es5 = true) (context : Context) {text : Text}
    (hne : text ≠ []) :
    (select edition context text = none ↔ OpensNothing edition text) ∧
    (∀ other, select edition context text = none ↔ select edition other text = none) ∧
    ∀ diagnosis,
      (∃ lexeme rest, select edition context text =
          some { action := .fail diagnosis, lexeme, rest }) ↔
        Malformed edition context text diagnosis := by
  obtain ⟨c, rest, rfl⟩ := List.exists_cons_of_ne_nil hne
  refine ⟨select_eq_none_iff hes5, fun other => ?_, fun diagnosis => select_fail_iff hes5⟩
  rw [select_eq_none_iff hes5, select_eq_none_iff hes5]

/-- The escape of a digit begins nothing, and a comment that is not closed is diagnosed. -/
theorem dispatch_total_escape :
    let escape : Text := ['\\', 'u', '0', '0', '3', '1']
    let comment : Text := ['/', '*', 'a', '*']
    Edition.es5.includes .es5 = true ∧ escape ≠ [] ∧ comment ≠ [] ∧
      OpensNothing .es5 escape ∧
      ∃ lexeme rest, select .es5 .initial comment =
        some { action := .fail (.unfinished .comment), lexeme, rest } := by
  intro escape comment
  refine ⟨by decide, by decide, by decide, ?_, ?_⟩
  · have hnone : select .es5 .initial escape = none := by decide +kernel
    exact (dispatch_total (by decide) .initial (by decide)).1.1 hnone
  · have hmalformed : Malformed .es5 .initial comment (.unfinished .comment) := .comment (by decide)
    exact ((dispatch_total (by decide) .initial (by decide)).2.2 _).2 hmalformed

end EcmaLex
