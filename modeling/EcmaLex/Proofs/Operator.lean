import EcmaLex.Proofs.Form
import EcmaLex.Proofs.Introduced
import EcmaLex.Proofs.Limit
import EcmaLex.Proofs.Offset.Basic
import EcmaLex.Proofs.Rest.Run

/-!
# The longest operator

The rules for operators try one spelling after the other, and none of the spellings that take part in an
edition begins a later one. So the first that stands at some place is the longest operator of the edition
there: `Operator.munches_spellings`. Where an operator stands, only the rules for numerals, comments and
regular expressions come before those for operators, and no other rule emits one: `select_operator_iff`.
-/

namespace EcmaLex

open Matcher

namespace Operator

/-- Operators that take no equals sign behind them. -/
def unassigned : List Text :=
  ["&&", "||", "++", "--", "!", "?", ":", "~"].map String.toList

/-- Operators that stand with an equals sign behind them as well as without it. -/
def assignable : List Text :=
  ["!=", "==", "<<", ">>", ">>>", "+", "-", "*", "/", "%", "&", "|", "^", "<", "=", ">"].map
    String.toList

/-- The operators that an edition knows. -/
inductive Known (edition : Edition) : Text → Prop where
  | unassigned {operator : Text} (h : operator ∈ unassigned) : Known edition operator
  | plain {operator : Text} (h : operator ∈ assignable) : Known edition operator
  | assigned {operator : Text} (h : operator ∈ assignable) : Known edition (operator ++ ['='])
  | arrow (h : edition.includes .es2015 = true) : Known edition ['=', '>']
  | spread (h : edition.includes .es2015 = true) : Known edition ['.', '.', '.']
  | power (h : edition.includes .es2016 = true) : Known edition ['*', '*']
  | assignedPower (h : edition.includes .es2016 = true) : Known edition ['*', '*', '=']

/-- The spellings that the rules try in an edition, in their order. -/
def spellings (edition : Edition) : List Text :=
  (if edition.includes .es2015 then arrowAndSpread else []) ++
    (if edition.includes .es2016 then exponent else []) ++ base

theorem known_of_mem_base {edition : Edition} : ∀ operator ∈ base, Known edition operator := by
  have hall : ∀ operator ∈ base, operator ∈ unassigned ∨ operator ∈ assignable ∨
      ∃ marks ∈ assignable, marks ++ ['='] = operator := by
    decide +kernel
  intro operator hmem
  rcases hall operator hmem with h | h | ⟨marks, h, rfl⟩
  · exact .unassigned h
  · exact .plain h
  · exact .assigned h

theorem mem_base_of_assignable : ∀ marks ∈ assignable, marks ∈ base ∧ marks ++ ['='] ∈ base := by
  decide +kernel

theorem mem_base_of_unassigned : ∀ operator ∈ unassigned, operator ∈ base := by
  decide +kernel

/-- The rules try just the operators that the edition knows. -/
theorem mem_spellings_iff {edition : Edition} {operator : Text} :
    operator ∈ spellings edition ↔ Known edition operator := by
  have harrow : arrowAndSpread = [['=', '>'], ['.', '.', '.']] := by decide +kernel
  have hexponent : exponent = [['*', '*', '='], ['*', '*']] := by decide +kernel
  simp only [spellings, List.mem_append, List.mem_ite_nil_right, harrow, hexponent, List.mem_cons,
    List.not_mem_nil, or_false]
  constructor
  · rintro ((⟨h, rfl | rfl⟩ | ⟨h, rfl | rfl⟩) | h)
    · exact .arrow h
    · exact .spread h
    · exact .assignedPower h
    · exact .power h
    · exact known_of_mem_base operator h
  · intro h
    cases h with
    | unassigned h => exact .inr (mem_base_of_unassigned _ h)
    | plain h => exact .inr (mem_base_of_assignable _ h).1
    | assigned h => exact .inr (mem_base_of_assignable _ h).2
    | arrow h => exact .inl (.inl ⟨h, .inl rfl⟩)
    | spread h => exact .inl (.inl ⟨h, .inr rfl⟩)
    | power h => exact .inl (.inr ⟨h, .inr rfl⟩)
    | assignedPower h => exact .inl (.inr ⟨h, .inl rfl⟩)

instance (edition : Edition) (operator : Text) : Decidable (Known edition operator) :=
  decidable_of_iff _ mem_spellings_iff

/-- In every edition none of the spellings tried begins one that is tried after it. -/
theorem pairwise_spellings (edition : Edition) :
    (spellings edition).Pairwise fun earlier later => ¬ earlier <+: later := by
  have hall : (arrowAndSpread ++ exponent ++ base).Pairwise fun earlier later =>
      ¬ earlier <+: later := by
    decide +kernel
  -- An edition leaves out whole families of spellings, and the others keep their order.
  have hsome : (spellings edition).Sublist (arrowAndSpread ++ exponent ++ base) := by
    unfold spellings
    refine .append (.append ?_ ?_) (.refl _)
    · split
      · exact .refl _
      · exact List.nil_sublist _
    · split
      · exact .refl _
      · exact List.nil_sublist _
  exact hall.sublist hsome

/-- Trying the spellings of an edition in their order finds the longest operator that it knows. -/
theorem munches_spellings (edition : Edition) :
    (oneOf (spellings edition)).Munches (Known edition) := by
  have hmunches := munches_oneOf (pairwise_spellings edition)
  have hform : (· ∈ spellings edition) = Known edition := funext fun _ => propext mem_spellings_iff
  rwa [hform] at hmunches

/-- Where an operator stands, a longest one does. -/
theorem exists_longest {edition : Edition} {operator text : Text} (hknown : Known edition operator)
    (hbegins : operator <+: text) : ∃ lexeme rest, text.Longest (Known edition) lexeme rest := by
  cases hfound : oneOf (spellings edition) text with
  | none => exact absurd hbegins ((munches_spellings edition).nothing hfound operator hknown)
  | some found => exact ⟨found.1, found.2, (munches_spellings edition).longest hfound⟩

end Operator

theorem Matcher.oneOf_append (first last : List Text) (text : Text) :
    oneOf (first ++ last) text = (oneOf first text).or (oneOf last text) :=
  List.findSome?_append

/-- What is selected where an operator is found. -/
def Selection.operator (found : Text × Text) : Selection :=
  { action := .emit .operator, lexeme := found.1, rest := found.2 }

section Selection

variable {edition : Edition} {context : Context} {text lexeme rest : Text}

/-- A rule for operators tries all of its spellings, or none if the edition is before it. -/
theorem find?_operator (since : Edition) (tried : List Text) (text : Text) :
    Rule.find? { since, matcher := oneOf tried, action := .emit .operator } edition context text =
      (oneOf (if edition.includes since then tried else []) text).map Selection.operator := by
  unfold Rule.find? Rule.applies
  cases edition.includes since with
  | true => rfl
  | false => rfl

/-- The rules for operators are as one rule that tries all spellings of the edition. -/
theorem firstOf_operatorRules (hes5 : edition.includes .es5 = true) (text : Text) :
    firstOf operatorRules edition context text =
      (oneOf (Operator.spellings edition) text).map Selection.operator := by
  have hnone : firstOf [] edition context text = none := rfl
  have hbase : (if edition.includes .es5 then Operator.base else []) = Operator.base := if_pos hes5
  simp only [operatorRules, firstOf_cons, find?_operator, hnone, hbase, Option.or_none,
    Operator.spellings, oneOf_append, Option.map_or, Option.or_assoc]

/-- The rules in front of those for operators. -/
def rulesBeforeOperators : List Rule :=
  blankRules ++ numeralRules ++ quotationRules ++ templateRules ++ wordRules ++ commentRules ++
    regExpRules

/-- No other rule emits an operator. -/
theorem action_ne_operator :
    ∀ rule ∈ rulesBeforeOperators ++ punctuationRules, rule.action ≠ .emit .operator := by
  decide +kernel

theorem firstOf_ne_operator {family : List Rule}
    (hfamily : ∀ rule ∈ family, rule ∈ rulesBeforeOperators ++ punctuationRules) :
    firstOf family edition context text ≠ some (.operator (lexeme, rest)) := by
  intro h
  obtain ⟨rule, hmem, -, haction, -⟩ := exists_of_firstOf h
  exact action_ne_operator rule (hfamily rule hmem) haction

/-- An operator is selected where the rules for operators find it and no rule in front of them answers. -/
theorem select_operator_iff_firstOf :
    select edition context text = some (.operator (lexeme, rest)) ↔
      firstOf rulesBeforeOperators edition context text = none ∧
        firstOf operatorRules edition context text = some (.operator (lexeme, rest)) := by
  have hselect : select edition context text =
      firstOf (rulesBeforeOperators ++ (operatorRules ++ punctuationRules)) edition context text := by
    rw [← List.append_assoc]
    rfl
  have hbefore := @firstOf_ne_operator edition context text lexeme rest rulesBeforeOperators
    fun rule hmem => List.mem_append_left _ hmem
  have hbehind := @firstOf_ne_operator edition context text lexeme rest punctuationRules
    fun rule hmem => List.mem_append_right _ hmem
  simp only [hselect, firstOf_append, Option.or_eq_some_iff, hbefore, hbehind, false_or, and_false,
    or_false]

/-- A character that begins an operator begins no blank, quotation, piece of a template or word. -/
theorem not_opens_of_opensOperator : ∀ {c : Char}, opensOperator c = true →
    (isBlank c || isLineTerminator c) = false ∧ opensQuotation c = false ∧
      opensTemplate c = false ∧ opensWord c = false := by
  have hall : ∀ c ∈ ['=', '.', '*', '&', '|', '+', '-', '!', '<', '>', '/', '%', '^', '?', ':', '~'],
      (isBlank c || isLineTerminator c) = false ∧ opensQuotation c = false ∧
        opensTemplate c = false ∧ opensWord c = false := by
    decide
  intro c h
  exact hall c (of_decide_eq_true h)

/-- Where an operator stands, only rules for numerals, comments and regular expressions come before it. -/
theorem firstOf_rulesBeforeOperators {c : Char} (h : opensOperator c = true) (tail : Text) :
    firstOf rulesBeforeOperators edition context (c :: tail) =
      firstOf (numeralRules ++ commentRules ++ regExpRules) edition context (c :: tail) := by
  obtain ⟨hblank, hquotation, htemplate, hword⟩ := not_opens_of_opensOperator h
  simp only [rulesBeforeOperators, firstOf_append, firstOf_eq_none opensOn_blankRules hblank,
    firstOf_eq_none opensOn_quotationRules hquotation,
    firstOf_eq_none opensOn_templateRules htemplate, firstOf_eq_none opensOn_wordRules hword,
    Option.none_or, Option.or_none]

/-- An operator is found only where a character stands that begins one. -/
theorem opensOperator_of_firstOf {found : Selection}
    (h : firstOf operatorRules edition context text = some found) :
    ∃ c tail, text = c :: tail ∧ opensOperator c = true := by
  obtain ⟨rule, hmem, -, -, hmatch⟩ := exists_of_firstOf h
  obtain ⟨hne, happend⟩ := lawful_of_mem_operatorRules rule hmem hmatch
  have htext : text ≠ [] := by
    rintro rfl
    exact hne (List.append_eq_nil_iff.1 happend).1
  obtain ⟨c, tail, rfl⟩ := List.exists_cons_of_ne_nil htext
  refine ⟨c, tail, rfl, ?_⟩
  cases hopens : opensOperator c with
  | true => rfl
  | false =>
    rw [firstOf_eq_none opensOn_operatorRules hopens] at h
    cases h

/-- In every edition an operator is selected exactly where one that it knows stands and no rule for numerals,
comments or regular expressions answers, and it is the longest that stands there. -/
theorem select_operator_iff (hes5 : edition.includes .es5 = true) :
    select edition context text = some { action := .emit .operator, lexeme, rest } ↔
      text.Longest (Operator.Known edition) lexeme rest ∧
        ∀ rule ∈ numeralRules ++ commentRules ++ regExpRules,
          rule.find? edition context text = none := by
  have hfound : firstOf operatorRules edition context text = some (.operator (lexeme, rest)) ↔
      text.Longest (Operator.Known edition) lexeme rest := by
    rw [firstOf_operatorRules hes5, ← (Operator.munches_spellings edition).eq_some_iff]
    cases oneOf (Operator.spellings edition) text <;> simp [Selection.operator, Prod.ext_iff]
  refine select_operator_iff_firstOf.trans (and_comm.trans ?_)
  rw [hfound]
  refine and_congr_right fun hlongest => ?_
  obtain ⟨c, tail, rfl, hopens⟩ := opensOperator_of_firstOf (hfound.2 hlongest)
  rw [firstOf_rulesBeforeOperators hopens]
  exact List.findSome?_eq_none_iff

end Selection

/-- Every operator of a scan is the longest one of the edition that stands at its place. Wherever a scan comes to
a place at which an operator stands and no rule for numerals, comments or regular expressions answers, it gives
an operator, unless its limit is used up there. -/
theorem operators_munched (source : Text) (settings : Settings)
    (hes5 : settings.edition.includes .es5 = true) :
    (∀ token ∈ (Lexer.ofText source settings).run.tokens, token.kind = .operator →
      ∃ ahead rest, source.dropBytes? token.span.start = some ahead ∧
        ahead.Longest (Operator.Known settings.edition) token.text rest) ∧
    ∀ before now, Lexer.Emits (.ofText source settings) before now →
      (∃ operator, Operator.Known settings.edition operator ∧ operator <+: now.cursor.rest) →
      (∀ rule ∈ numeralRules ++ commentRules ++ regExpRules,
        rule.find? settings.edition now.context now.cursor.rest = none) →
      (∃ token later, (Lexer.ofText source settings).run.tokens = before ++ token :: later ∧
        token.kind = .operator) ∨
      (before.length = settings.iterationLimit.toNat ∧
        (Lexer.ofText source settings).run.tokens = before ∧
        ∃ span, (Lexer.ofText source settings).run.fault =
          some (.iterationLimit settings.iterationLimit span)) := by
  constructor
  · intro token hmem hkind
    obtain ⟨before, later, hrun⟩ := List.append_of_mem hmem
    obtain ⟨now, after, hemits, hnext⟩ := Lexer.exists_emits_of_run hrun
    obtain ⟨-, kind, lexeme, rest, hselect, rfl, -⟩ := Lexer.next_eq_token_iff.1 hnext
    obtain rfl : kind = .operator := hkind
    have hsource : Token.texts before ++ now.cursor.rest = source := hemits.texts_append
    have hstart : (now.tokenOf .operator lexeme).span.start = Text.byteSize (Token.texts before) :=
      hemits.partition.stands.position_eq
    rw [Lexer.selection, hemits.settings_eq] at hselect
    refine ⟨now.cursor.rest, rest, ?_, ((select_operator_iff hes5).1 hselect).1⟩
    rw [hstart, ← hsource, Text.dropBytes?_append]
  · rintro before now hemits ⟨operator, hknown, hbegins⟩ hothers
    obtain ⟨lexeme, rest, hlongest⟩ := Operator.exists_longest hknown hbegins
    have hsettings : now.settings = settings := hemits.settings_eq
    have hselect : now.selection = some { action := .emit .operator, lexeme, rest } := by
      rw [Lexer.selection, hsettings]
      exact (select_operator_iff hes5).2 ⟨hlongest, hothers⟩
    exact hemits.gives_or_cut hselect

/-- Behind a name the longest shift is read whole, and where the limit is not used up, the points behind it are a
spread. -/
theorem operators_munched_spread :
    let source : Text := ['a', '>', '>', '>', '=', '.', '.', '.', 'b']
    let settings : Settings := { edition := .es2015, iterationLimit := 3 }
    let shift : Token := ⟨.operator, ['>', '>', '>', '='], ⟨1, 5, ⟨1, 2⟩⟩⟩
    let before : List Token := [⟨.identifier, ['a'], ⟨0, 1, ⟨1, 1⟩⟩⟩, shift]
    settings.edition.includes .es5 = true ∧
      (∃ ahead rest, source.dropBytes? shift.span.start = some ahead ∧
        ahead.Longest (Operator.Known settings.edition) shift.text rest) ∧
      ∃ token later, (Lexer.ofText source settings).run.tokens = before ++ token :: later ∧
        token.kind = .operator := by
  intro source settings shift before
  have hes5 : settings.edition.includes .es5 = true := by decide
  obtain ⟨hmunched, hemitted⟩ := operators_munched source settings hes5
  have hrun : (Lexer.ofText source settings).run.tokens =
      before ++ ⟨.operator, ['.', '.', '.'], ⟨5, 8, ⟨1, 6⟩⟩⟩ :: [] := by
    decide +kernel
  refine ⟨hes5, hmunched shift (by rw [hrun]; decide) rfl, ?_⟩
  obtain ⟨now, -, hemits, -⟩ := Lexer.exists_emits_of_run hrun
  have hahead : now.cursor.rest = ['.', '.', '.', 'b'] := by
    have hsource : Token.texts before ++ now.cursor.rest = source := hemits.texts_append
    exact @List.append_cancel_left _ (Token.texts before) _ _ hsource
  have hothers : ∀ rule ∈ numeralRules ++ commentRules ++ regExpRules,
      rule.matcher ['.', '.', '.', 'b'] = none := by
    decide +kernel
  have hanswer := hemitted before now hemits ⟨['.', '.', '.'], by decide +kernel, by rw [hahead]; decide⟩
    fun rule hmem => by simp only [Rule.find?, hahead, hothers rule hmem, Option.map_none, ite_self]
  exact hanswer.resolve_right fun hlimited => absurd hlimited.1 (by decide)

end EcmaLex
