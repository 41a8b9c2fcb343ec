import EcmaLex.Proofs.Offset.Mark
import EcmaLex.Proofs.Offset.Name
import EcmaLex.Proofs.Offset.Numeral
import EcmaLex.Proofs.Offset.Quoted
import EcmaLex.Proofs.Offset.Slash
import EcmaLex.Rule.Table
import Mathlib.Data.List.Forall2

/-!
# The rules by byte offsets

For each rule of the table, in the same order, the measure that finds by offsets what its matcher
finds. `select` is then the first rule that takes part and whose measure finds something.
-/

namespace EcmaLex

open Text

/-- The measures of some rules, one for each. -/
abbrev Measured := List.Forall₂ fun (rule : Rule) measure => Measures measure rule.matcher

def blankMeasures : List Measure :=
  [Measure.one isBlank, Measure.lineEnd]

def numeralMeasures : List Measure :=
  let binaryOrOctal := (Numeral.inRadixSize .binary).orElse (Numeral.inRadixSize .octal)
  let zeroOrHexadecimal := Numeral.leadingZeroSize.orElse (Numeral.inRadixSize .hexadecimal)
  [(Numeral.inRadixSize .binary).standalone isNamePart,
    (Numeral.inRadixSize .octal).standalone isNamePart,
    Numeral.leadingZeroSize.standalone isNamePart,
    (Numeral.inRadixSize .hexadecimal).standalone isNamePart,
    binaryOrOctal.abutting isNameStart, zeroOrHexadecimal.abutting isNameStart,
    binaryOrOctal.abutting Char.isDigit, zeroOrHexadecimal.abutting Char.isDigit,
    Numeral.radixMarkSize .binary, Numeral.radixMarkSize .octal, Numeral.radixMarkSize .hexadecimal,
    Numeral.scientificSize.standalone isNamePart, Numeral.scientificSize.abutting isNamePart,
    Numeral.exponentMarkSize,
    Numeral.mantissaSize.standalone isNamePart, Numeral.mantissaSize.abutting isNamePart]

def quotationMeasures : List Measure :=
  [Quotation.stringSize,
    (Measure.toLineEnd [Quotation.singleQuote]).orElse
      (Measure.toLineEnd [Quotation.doubleQuote])]

def templateMeasures : List Measure :=
  [Template.pieceSize Template.backquote .closing,
    Template.pieceSize Template.backquote .interpolation, Measure.toLineEnd [Template.backquote],
    Template.pieceSize '}' .closing, Template.pieceSize '}' .interpolation,
    Measure.toLineEnd ['}']]

def wordMeasures : List Measure :=
  [Name.wordSize Name.fixedLiterals, Name.wordSize Name.keywords,
    Name.wordSize Name.contextualKeywords, Name.identifierSize]

def commentMeasures : List Measure :=
  [Measure.toLineEnd ['/', '/'], Comment.blockSize, Measure.toLineEnd ['/', '*'],
    Measure.toLineEnd ['-', '-', '>'], Measure.toLineEnd ['<', '!', '-', '-']]

def regExpMeasures : List Measure :=
  [RegExp.regExpSize, Measure.toLineEnd ['/']]

def operatorMeasures : List Measure :=
  [Measure.oneOf Operator.arrowAndSpread, Measure.oneOf Operator.exponent, Operator.baseSize]

def punctuationMeasures : List Measure :=
  ['.', ',', ';', '(', ')', '[', ']', '{', '}', '}'].map Measure.mark

/-- A measure for each rule, in the order of the rules. -/
def measures : List Measure :=
  blankMeasures ++ numeralMeasures ++ quotationMeasures ++ templateMeasures ++ wordMeasures ++
    commentMeasures ++ regExpMeasures ++ operatorMeasures ++ punctuationMeasures

theorem measured_blankRules : Measured blankRules blankMeasures :=
  .cons (measures_one isBlank) (.cons measures_lineEnd .nil)

theorem measured_numeralRules : Measured numeralRules numeralMeasures := by
  have hradix := Numeral.measures_inRadix
  have hlawful := Numeral.lawful_inRadix
  have hzero := Numeral.measures_leadingZero
  have hlow := (hradix .binary).orElse (hradix .octal)
  have hlowLawful := (hlawful .binary).orElse (hlawful .octal)
  have hhigh := hzero.orElse (hradix .hexadecimal)
  have hhighLawful := Numeral.lawful_leadingZero.orElse (hlawful .hexadecimal)
  refine .cons ((hradix _).standalone (hlawful _) _) (.cons ((hradix _).standalone (hlawful _) _) ?_)
  refine .cons (hzero.standalone Numeral.lawful_leadingZero _) ?_
  refine .cons ((hradix _).standalone (hlawful _) _) ?_
  refine .cons (hlow.abutting hlowLawful ascii_isNameStart) ?_
  refine .cons (hhigh.abutting hhighLawful ascii_isNameStart) ?_
  refine .cons (hlow.abutting hlowLawful ascii_isDigit) ?_
  refine .cons (hhigh.abutting hhighLawful ascii_isDigit) ?_
  refine .cons (Numeral.measures_radixMark _) (.cons (Numeral.measures_radixMark _) ?_)
  refine .cons (Numeral.measures_radixMark _) ?_
  refine .cons (Numeral.measures_scientific.standalone Numeral.lawful_scientific _) ?_
  refine .cons (Numeral.measures_scientific.abutting Numeral.lawful_scientific ascii_isNamePart) ?_
  refine .cons Numeral.measures_exponentMark ?_
  refine .cons (Numeral.measures_mantissa.standalone Numeral.lawful_mantissa _) ?_
  exact .cons (Numeral.measures_mantissa.abutting Numeral.lawful_mantissa ascii_isNamePart) .nil

theorem measured_quotationRules : Measured quotationRules quotationMeasures :=
  .cons Quotation.measures_string
    (.cons ((measures_toLineEnd _).orElse (measures_toLineEnd _)) .nil)

theorem measured_templateRules : Measured templateRules templateMeasures := by
  have hpiece := fun opening (h : Char.utf8Size opening = 1) => @Template.measures_piece opening h
  refine .cons (hpiece _ rfl _) (.cons (hpiece _ rfl _) (.cons (measures_toLineEnd _) ?_))
  exact .cons (hpiece _ rfl _) (.cons (hpiece _ rfl _) (.cons (measures_toLineEnd _) .nil))

theorem measured_wordRules : Measured wordRules wordMeasures :=
  .cons (Name.measures_wordIn _) (.cons (Name.measures_wordIn _)
    (.cons (Name.measures_wordIn _) (.cons Name.measures_identifier .nil)))

theorem measured_commentRules : Measured commentRules commentMeasures :=
  .cons (measures_toLineEnd _) (.cons Comment.measures_block (.cons (measures_toLineEnd _)
    (.cons (measures_toLineEnd _) (.cons (measures_toLineEnd _) .nil))))

theorem measured_regExpRules : Measured regExpRules regExpMeasures :=
  .cons RegExp.measures_regExp (.cons (measures_toLineEnd _) .nil)

theorem measured_operatorRules : Measured operatorRules operatorMeasures :=
  .cons (measures_oneOf _) (.cons (measures_oneOf _) (.cons Operator.measures_base .nil))

theorem measured_punctuationRules : Measured punctuationRules punctuationMeasures := by
  have hmark := fun c (h : Char.utf8Size c = 1) => @measures_exactly c h
  refine .cons (hmark _ rfl) (.cons (hmark _ rfl) (.cons (hmark _ rfl) (.cons (hmark _ rfl) ?_)))
  refine .cons (hmark _ rfl) (.cons (hmark _ rfl) (.cons (hmark _ rfl) (.cons (hmark _ rfl) ?_)))
  exact .cons (hmark _ rfl) (.cons (hmark _ rfl) .nil)

/-- Each rule finds by offsets what its matcher finds, and makes no illegal cut on the way. -/
theorem measured_rules : Measured rules measures := by
  unfold rules measures
  refine List.rel_append (List.rel_append (List.rel_append (List.rel_append (List.rel_append
    (List.rel_append (List.rel_append (List.rel_append ?_ ?_) ?_) ?_) ?_) ?_) ?_) ?_) ?_
  · exact measured_blankRules
  · exact measured_numeralRules
  · exact measured_quotationRules
  · exact measured_templateRules
  · exact measured_wordRules
  · exact measured_commentRules
  · exact measured_regExpRules
  · exact measured_operatorRules
  · exact measured_punctuationRules

/-- The action and the length found by the first rule that takes part and whose measure finds
something. -/
def firstSize (edition : Edition) (context : Context) (text : Text) :
    List Rule → List Measure → Option (Option (Action × Nat))
  | rule :: rules, measure :: measures =>
    if rule.applies edition context then do
      match ← measure text with
      | some size => some (some (rule.action, size))
      | none => firstSize edition context text rules measures
    else firstSize edition context text rules measures
  | _, _ => some none

def selectSize (edition : Edition) (context : Context) (text : Text) :
    Option (Option (Action × Nat)) :=
  firstSize edition context text rules measures

theorem firstSize_eq {family : List Rule} {sizes : List Measure} (h : Measured family sizes)
    (edition : Edition) (context : Context) (text : Text) :
    firstSize edition context text family sizes =
      some ((family.findSome? fun rule => rule.find? edition context text).map fun found =>
        (found.action, found.lexeme.byteSize)) := by
  induction h with
  | nil => rfl
  | @cons rule measure family sizes hmeasure _ ih =>
    rw [firstSize, List.findSome?_cons, Rule.find?]
    by_cases happlies : rule.applies edition context = true
    · rw [if_pos happlies, if_pos happlies, hmeasure text]
      cases hmatch : rule.matcher text with
      | none => exact ih
      | some found => rfl
    · rw [if_neg happlies, if_neg happlies]
      exact ih

theorem selectSize_eq (edition : Edition) (context : Context) (text : Text) :
    selectSize edition context text =
      some ((select edition context text).map fun found =>
        (found.action, found.lexeme.byteSize)) :=
  firstSize_eq measured_rules edition context text

end EcmaLex
