import EcmaLex.Lexeme.Comment
import EcmaLex.Lexeme.Name
import EcmaLex.Lexeme.Numeral
import EcmaLex.Lexeme.Operator
import EcmaLex.Lexeme.Quotation
import EcmaLex.Lexeme.RegExp
import EcmaLex.Lexeme.Template
import EcmaLex.Rule.Basic

/-!
# The rules of the language

The rules stand in order of precedence, and the first that takes part and matches decides. Numbers
come before operators, so that a point before digits belongs to the number. Each rule for malformed
text comes right after the rules for the text it is mistaken for. Reserved words come before names,
comments before regular expressions, and these before operators.

`append_of_select` says that what is selected stands at the start of the text and is not empty.
-/

namespace EcmaLex

open Matcher

def blankRules : List Rule :=
  [ { matcher := one isBlank, action := .emit .whitespace },
    { matcher := oneOf [['\r', '\n'], ['\n'], ['\r']], action := .emit .lineEnd } ]

/-- A numeral must not run into a name or another numeral, and its parts must be complete. -/
def numeralRules : List Rule :=
  let binaryOrOctal := (Numeral.inRadix .binary).orElse (Numeral.inRadix .octal)
  let zeroOrHexadecimal := Numeral.leadingZero.orElse (Numeral.inRadix .hexadecimal)
  let literal := Action.emit .literal
  let malformed (problem : NumeralFault) := Action.fail (.malformedNumeral problem)
  [ { since := .es2015
      matcher := (Numeral.inRadix .binary).standalone isNamePart
      action := literal },
    { since := .es2015
      matcher := (Numeral.inRadix .octal).standalone isNamePart
      action := literal },
    { matcher := Numeral.leadingZero.standalone isNamePart, action := literal },
    { matcher := (Numeral.inRadix .hexadecimal).standalone isNamePart, action := literal },
    { since := .es2015
      matcher := binaryOrOctal.andThen (one isNameStart)
      action := malformed .identifierAfter },
    { matcher := zeroOrHexadecimal.andThen (one isNameStart)
      action := malformed .identifierAfter },
    { since := .es2015
      matcher := binaryOrOctal.andThen (one Char.isDigit)
      action := malformed .digitAfter },
    { matcher := zeroOrHexadecimal.andThen (one Char.isDigit), action := malformed .digitAfter },
    { since := .es2015
      matcher := Numeral.radixMark .binary
      action := malformed (.missingDigits .binary) },
    { since := .es2015
      matcher := Numeral.radixMark .octal
      action := malformed (.missingDigits .octal) },
    { matcher := Numeral.radixMark .hexadecimal
      action := malformed (.missingDigits .hexadecimal) },
    { matcher := Numeral.scientific.standalone isNamePart, action := literal },
    { matcher := Numeral.scientific.andThen (one isNamePart)
      action := malformed .identifierAfter },
    { matcher := Numeral.exponentMark, action := malformed .missingExponent },
    { matcher := Numeral.mantissa.standalone isNamePart, action := literal },
    { matcher := Numeral.mantissa.andThen (one isNamePart), action := malformed .identifierAfter } ]

def quotationRules : List Rule :=
  [ { matcher := Quotation.string, action := .emit .literal },
    { matcher := Quotation.unfinished, action := .fail (.unfinished .string) } ]

/-- A right brace goes on with a template only at the end of an interpolation. -/
def templateRules : List Rule :=
  let atEnd (context : Context) := context.nesting.atInterpolationEnd
  [ { since := .es2015, matcher := Template.whole, action := .emit .template },
    { since := .es2015, matcher := Template.head, action := .emit .templateStart },
    { since := .es2015, matcher := Template.unfinished, action := .fail (.unfinished .template) },
    { since := .es2015, guard := atEnd, matcher := Template.tail, action := .emit .templateEnd },
    { since := .es2015
      guard := atEnd
      matcher := Template.middle
      action := .emit .templateMiddle },
    { since := .es2015
      guard := atEnd
      matcher := Template.unfinishedSection
      action := .fail (.unfinished .templateSection) } ]

/-- After a period a reserved word is an ordinary name. -/
def wordRules : List Rule :=
  let notAfterPeriod (context : Context) := !context.afterPeriod
  [ { matcher := Name.wordIn Name.fixedLiterals, action := .emit .literal },
    { guard := notAfterPeriod
      matcher := Name.wordIn Name.keywords
      action := .emit .keyword },
    { since := .es2015
      guard := notAfterPeriod
      matcher := Name.wordIn Name.contextualKeywords
      action := .emit .keyword },
    { matcher := Name.identifier, action := .emit .identifier } ]

/-- The end mark of a markup comment counts only at the start of a line. -/
def commentRules : List Rule :=
  [ { matcher := Comment.line, action := .emit .comment },
    { matcher := Comment.block, action := .emit .comment },
    { matcher := Comment.unfinished, action := .fail (.unfinished .comment) },
    { since := .es2015
      guard := fun context => context.atLineStart
      matcher := Comment.markupClose
      action := .emit .comment },
    { since := .es2015, matcher := Comment.markupOpen, action := .emit .comment } ]

/-- A slash opens a regular expression where it cannot divide. -/
def regExpRules : List Rule :=
  let atOperand (context : Context) := !context.expression
  [ { guard := atOperand, matcher := RegExp.regExp, action := .emit .literal },
    { guard := atOperand, matcher := RegExp.unfinished, action := .fail (.unfinished .regExp) } ]

def operatorRules : List Rule :=
  [ { since := .es2015, matcher := oneOf Operator.arrowAndSpread, action := .emit .operator },
    { since := .es2016, matcher := oneOf Operator.exponent, action := .emit .operator },
    { matcher := oneOf Operator.base, action := .emit .operator } ]

/-- A right brace must have a left brace to close. -/
def punctuationRules : List Rule :=
  [ { matcher := exactly ['.'], action := .emit .period },
    { matcher := exactly [','], action := .emit .comma },
    { matcher := exactly [';'], action := .emit .semicolon },
    { matcher := exactly ['('], action := .emit .leftParen },
    { matcher := exactly [')'], action := .emit .rightParen },
    { matcher := exactly ['['], action := .emit .leftBracket },
    { matcher := exactly [']'], action := .emit .rightBracket },
    { matcher := exactly ['{'], action := .emit .leftBrace },
    { guard := fun context => context.nesting.top != 0
      matcher := exactly ['}']
      action := .emit .rightBrace },
    { guard := fun context => context.nesting.top == 0
      matcher := exactly ['}']
      action := .fail .unmatchedBrace } ]

/-- Every rule, in order of precedence. -/
def rules : List Rule :=
  blankRules ++ numeralRules ++ quotationRules ++ templateRules ++ wordRules ++ commentRules ++
    regExpRules ++ operatorRules ++ punctuationRules

/-- What the first rule that takes part and matches finds at the start of a text. -/
def select (edition : Edition) (context : Context) (text : Text) : Option Selection :=
  rules.findSome? fun rule => rule.find? edition context text

theorem lawful_of_mem_numeralRules : ∀ rule ∈ numeralRules, rule.matcher.Lawful := by
  have hradix := Numeral.lawful_inRadix
  have hmark := Numeral.lawful_radixMark
  have hlow := (hradix .binary).orElse (hradix .octal)
  have hhigh := Numeral.lawful_leadingZero.orElse (hradix .hexadecimal)
  simp only [numeralRules, List.forall_mem_cons, List.not_mem_nil, false_imp_iff, implies_true,
    and_true]
  exact ⟨(hradix _).standalone _, (hradix _).standalone _, Numeral.lawful_leadingZero.standalone _,
    (hradix _).standalone _, hlow.andThen (lawful_one _), hhigh.andThen (lawful_one _),
    hlow.andThen (lawful_one _), hhigh.andThen (lawful_one _), hmark _, hmark _, hmark _,
    Numeral.lawful_scientific.standalone _, Numeral.lawful_scientific.andThen (lawful_one _),
    Numeral.lawful_exponentMark, Numeral.lawful_mantissa.standalone _,
    Numeral.lawful_mantissa.andThen (lawful_one _)⟩

theorem lawful_of_mem_templateRules : ∀ rule ∈ templateRules, rule.matcher.Lawful := by
  simp only [templateRules, List.forall_mem_cons, List.not_mem_nil, false_imp_iff, implies_true,
    and_true]
  exact ⟨Template.lawful_piece _ _, Template.lawful_piece _ _, Template.lawful_unfinished,
    Template.lawful_piece _ _, Template.lawful_piece _ _, Template.lawful_unfinishedSection⟩

theorem lawful_of_mem_wordRules : ∀ rule ∈ wordRules, rule.matcher.Lawful := by
  simp only [wordRules, List.forall_mem_cons, List.not_mem_nil, false_imp_iff, implies_true,
    and_true]
  exact ⟨Name.lawful_wordIn (by decide +kernel), Name.lawful_wordIn (by decide +kernel),
    Name.lawful_wordIn (by decide +kernel), Name.lawful_identifier⟩

theorem lawful_of_mem_commentRules : ∀ rule ∈ commentRules, rule.matcher.Lawful := by
  simp only [commentRules, List.forall_mem_cons, List.not_mem_nil, false_imp_iff, implies_true,
    and_true]
  exact ⟨Comment.lawful_line, Comment.lawful_block, Comment.lawful_unfinished,
    Comment.lawful_markupClose, Comment.lawful_markupOpen⟩

theorem lawful_of_mem_operatorRules : ∀ rule ∈ operatorRules, rule.matcher.Lawful := by
  simp only [operatorRules, List.forall_mem_cons, List.not_mem_nil, false_imp_iff, implies_true,
    and_true]
  exact ⟨lawful_oneOf (by decide +kernel), lawful_oneOf (by decide +kernel),
    lawful_oneOf (by decide +kernel)⟩

theorem lawful_of_mem_punctuationRules : ∀ rule ∈ punctuationRules, rule.matcher.Lawful := by
  simp only [punctuationRules, List.forall_mem_cons, List.not_mem_nil, false_imp_iff, implies_true,
    and_true]
  refine ⟨?_, ?_, ?_, ?_, ?_, ?_, ?_, ?_, ?_, ?_⟩ <;> exact lawful_exactly (by simp)

/-- What holds of the rules of every family holds of all rules. -/
theorem forall_mem_rules {P : Rule → Prop} :
    (∀ rule ∈ rules, P rule) ↔
      (∀ rule ∈ blankRules, P rule) ∧ (∀ rule ∈ numeralRules, P rule) ∧
      (∀ rule ∈ quotationRules, P rule) ∧ (∀ rule ∈ templateRules, P rule) ∧
      (∀ rule ∈ wordRules, P rule) ∧ (∀ rule ∈ commentRules, P rule) ∧
      (∀ rule ∈ regExpRules, P rule) ∧ (∀ rule ∈ operatorRules, P rule) ∧
      ∀ rule ∈ punctuationRules, P rule := by
  simp only [rules, List.forall_mem_append, and_assoc]

/-- Every matcher of the language is lawful. -/
theorem lawful_of_mem_rules : ∀ rule ∈ rules, rule.matcher.Lawful := by
  refine forall_mem_rules.2 ⟨?blank, lawful_of_mem_numeralRules, ?quotation,
    lawful_of_mem_templateRules, lawful_of_mem_wordRules, lawful_of_mem_commentRules, ?regExp,
    lawful_of_mem_operatorRules, lawful_of_mem_punctuationRules⟩
  all_goals
    simp only [blankRules, quotationRules, regExpRules, List.forall_mem_cons, List.not_mem_nil,
      false_imp_iff, implies_true, and_true]
  case blank => exact ⟨lawful_one _, lawful_oneOf (by simp)⟩
  case quotation => exact ⟨Quotation.lawful_string, Quotation.lawful_unfinished⟩
  case regExp => exact ⟨RegExp.lawful_regExp, RegExp.lawful_unfinished⟩

/-- The lexeme selected is a nonempty piece of the text, and the rest is what follows it. -/
theorem append_of_select {edition : Edition} {context : Context} {text : Text}
    {selection : Selection} (h : select edition context text = some selection) :
    selection.lexeme ≠ [] ∧ selection.lexeme ++ selection.rest = text := by
  obtain ⟨rule, hmem, hfind⟩ := List.exists_of_findSome?_eq_some h
  exact lawful_of_mem_rules rule hmem (Rule.find?_eq_some_iff.1 hfind).2.2

theorem ne_nil_of_select {edition : Edition} {context : Context} {text : Text} {found : Selection}
    (h : select edition context text = some found) : text ≠ [] := by
  obtain ⟨hne, happend⟩ := append_of_select h
  intro hempty
  rw [hempty, List.append_eq_nil_iff] at happend
  exact hne happend.1

end EcmaLex
