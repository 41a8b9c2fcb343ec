import EcmaLex.Proofs.Offset.Basic
import EcmaLex.Proofs.WordBoundary

/-!
# Where no rule answers

Blanks, numerals, quotations, names, operators and punctuation are each opened by characters of their own,
and a family of rules answers wherever one of its characters stands, with a token or with a fault. So no
rule answers only at characters that open nothing: `select_eq_none_iff`. The context has no say in it.
-/

namespace EcmaLex

open Matcher

theorem Matcher.orElse_eq_none_iff {first second : Matcher} {text : Text} :
    first.orElse second text = none ↔ first text = none ∧ second text = none := by
  rw [Matcher.orElse]
  cases first text <;> simp

theorem singleton_prefix_iff {c : Char} {text : Text} : [c] <+: text ↔ text.head? = some c := by
  cases text with
  | nil => simp
  | cons d rest => simp [eq_comm]

/-- Of several spellings one is found where any of them stands. -/
theorem Matcher.oneOf_ne_none {spelling : Text} {spellings : List Text} {text : Text}
    (hmem : spelling ∈ spellings) (hbegins : spelling <+: text) : oneOf spellings text ≠ none := by
  intro hnone
  exact exactly_eq_none_iff.1 (List.findSome?_eq_none_iff.1 hnone spelling hmem) hbegins

section Families

variable {edition : Edition} {context : Context} {text : Text}

theorem firstOf_blankRules_eq_none_iff (hes5 : edition.includes .es5 = true) :
    firstOf blankRules edition context text = none ↔ text.head?.any isGap = false := by
  simp only [firstOf_eq_none_iff, blankRules, List.forall_mem_cons, List.not_mem_nil, false_imp_iff,
    implies_true, and_true, Rule.applies, hes5, Bool.and_true, forall_const, one_eq_none_iff,
    lineEnd_eq_none_iff]
  cases text <;> simp [isGap]

theorem Quotation.unfinished_eq_none_iff {text : Text} :
    unfinished text = none ↔ text.head?.any opensQuotation = false := by
  rw [unfinished, orElse_eq_none_iff, toLineEnd_eq_none_iff, toLineEnd_eq_none_iff,
    singleton_prefix_iff, singleton_prefix_iff]
  cases text <;> simp [opensQuotation]

theorem firstOf_quotationRules_eq_none_iff (hes5 : edition.includes .es5 = true) :
    firstOf quotationRules edition context text = none ↔ text.head?.any opensQuotation = false := by
  simp only [firstOf_eq_none_iff, quotationRules, List.forall_mem_cons, List.not_mem_nil,
    false_imp_iff, implies_true, and_true, Rule.applies, hes5, Bool.and_true, forall_const,
    Quotation.unfinished_eq_none_iff, and_iff_right_iff_imp]
  intro hhead
  cases text with
  | nil => rfl
  | cons c rest => exact Quotation.opensOn_string rest hhead

/-- The rules for the pieces with one opening answer wherever the opening stands and they take part. -/
theorem firstOf_pieceRules_eq_none_iff {guard : Context → Bool} {opening : Char}
    {kindOf : Template.Stop → TokenKind} {construct : Unfinished} :
    firstOf (pieceRules guard opening kindOf construct) edition context text = none ↔
      ((edition.includes .es2015 && guard context) = true → text.head? ≠ some opening) := by
  constructor
  · intro hnone happlies hhead
    simp only [firstOf_eq_none_iff, pieceRules, List.forall_mem_cons, Rule.applies,
      toLineEnd_eq_none_iff, singleton_prefix_iff] at hnone
    exact hnone.2.2.1 happlies hhead
  · intro h
    by_cases happlies : (edition.includes .es2015 && guard context) = true
    · exact firstOf_pieceRules_other (h happlies)
    · exact firstOf_pieceRules_skip happlies text

theorem firstOf_operatorRules_ne_none (hes5 : edition.includes .es5 = true) {c : Char} (rest : Text)
    (hopens : opensOperator c = true) (hpoint : c ≠ '.') :
    firstOf operatorRules edition context (c :: rest) ≠ none := by
  have hsingle : ∀ d ∈ ['=', '.', '*', '&', '|', '+', '-', '!', '<', '>', '/', '%', '^', '?', ':',
      '~'], d ≠ '.' → [d] ∈ Operator.base := by
    decide +kernel
  intro hnone
  simp only [firstOf_eq_none_iff, operatorRules, List.forall_mem_cons, Rule.applies, hes5,
    Bool.and_true, forall_const] at hnone
  have hmem := hsingle c (of_decide_eq_true hopens) hpoint
  exact oneOf_ne_none hmem (singleton_prefix_iff.2 rfl) hnone.2.2.1

theorem firstOf_punctuationRules_eq_none_iff (hes5 : edition.includes .es5 = true) :
    firstOf punctuationRules edition context text = none ↔ text.head?.any isPunctuation = false := by
  have hbrace : ((context.nesting.top != 0) = true → text.head? ≠ some '}') ∧
      ((context.nesting.top == 0) = true → text.head? ≠ some '}') ↔ text.head? ≠ some '}' := by
    cases h : context.nesting.top == 0 <;> simp [bne, h]
  simp only [firstOf_eq_none_iff, punctuationRules, List.forall_mem_cons, List.not_mem_nil,
    false_imp_iff, implies_true, and_true, Rule.applies, hes5, Bool.and_true, Bool.true_and,
    forall_const, exactly_eq_none_iff, singleton_prefix_iff, hbrace]
  cases text <;> simp [isPunctuation]

end Families

/-- Whether a character begins nothing, in any edition: one beyond ASCII, a control that is neither blank nor
the end of a line, `#` or `@`. -/
def isForeign (c : Char) : Bool :=
  0x80 ≤ c.toNat || c == '\x7f' ||
    (c.toNat < 0x20 && !(c ∈ ['\t', '\n', '\x0b', '\x0c', '\r'])) || c == '#' || c == '@'

/-- Nothing that the edition knows begins at the first character of the text. -/
inductive OpensNothing (edition : Edition) : Text → Prop where
  | foreign {c : Char} (rest : Text) (h : isForeign c = true) : OpensNothing edition (c :: rest)
  /-- Templates are not yet known. -/
  | template (rest : Text) (h : edition.number < 6) :
      OpensNothing edition (Template.backquote :: rest)
  /-- A backslash without the escape of a character that can begin a name. -/
  | escape {rest : Text} (h : ¬ Name.BeginsEscaped ('\\' :: rest)) :
      OpensNothing edition ('\\' :: rest)

/-- Whether a character opens something in every edition and context. -/
def opensAlways (c : Char) : Bool :=
  isGap c || c.isDigit || opensQuotation c || isNameStart c || opensOperator c || isPunctuation c

/-- What holds of the characters with the first 128 codes holds of all of ASCII. -/
@[elab_as_elim]
theorem Text.forall_ascii {motive : Char → Prop} (h : ∀ n < 128, motive (Char.ofNat n)) (c : Char)
    (hc : c.toNat < 128) : motive c := by
  have hcode := h c.toNat hc
  rwa [Char.ofNat_toNat] at hcode

theorem ascii_of_mem {chars : List Char} (h : ∀ c ∈ chars, c.toNat < 128) :
    Text.Ascii fun c => c ∈ chars :=
  fun c hc => h c (of_decide_eq_true hc)

theorem ascii_isGap : Text.Ascii isGap := by
  have hbeq := fun d => @Text.ascii_beq d
  exact ((((hbeq ' ' (by decide)).or (hbeq '\t' (by decide))).or (hbeq '\x0b' (by decide))).or
    (hbeq '\x0c' (by decide))).or ((hbeq '\n' (by decide)).or (hbeq '\r' (by decide)))

theorem ascii_opensAlways : Text.Ascii opensAlways := by
  have hquotation : Text.Ascii opensQuotation :=
    (Text.ascii_beq (by decide)).or (Text.ascii_beq (by decide))
  exact ((((ascii_isGap.or Text.ascii_isDigit).or hquotation).or Text.ascii_isNameStart).or
    (ascii_of_mem (by decide))).or (ascii_of_mem (by decide))

/-- Every character that is not foreign opens something, a backquote and a backslash apart. -/
theorem opensAlways_eq (c : Char) :
    opensAlways c = !(isForeign c || c == Template.backquote || c == '\\') := by
  by_cases hc : c.toNat < 128
  · refine Text.forall_ascii ?_ c hc
    decide +kernel
  · have hforeign : isForeign c = true := by
      simp only [isForeign, Nat.not_lt.1 hc, decide_true, Bool.true_or]
    rw [hforeign, Bool.true_or, Bool.true_or, Bool.not_true, Bool.eq_false_iff]
    exact fun hopens => hc (ascii_opensAlways c hopens)

variable {edition : Edition} {context : Context}

/-- Of a backslash only the escape of a character that can begin a name makes a name. -/
theorem Name.identifier_backslash_eq_none_iff {rest : Text} :
    identifier ('\\' :: rest) = none ↔ ¬ BeginsEscaped ('\\' :: rest) := by
  rw [identifier_eq_none_iff, BeginsEscaped]
  by_cases hescape : ∃ high low tail, rest = 'u' :: '0' :: '0' :: high :: low :: tail
  · obtain ⟨high, low, tail, rfl⟩ := hescape
    rw [nameUnit, ite_eq_right_iff]
    simp [Option.any_eq_true]
  · have hplain : ∀ high low tail, '\\' :: rest ≠ '\\' :: 'u' :: '0' :: '0' :: high :: low :: tail :=
      fun high low tail heq => hescape ⟨high, low, tail, (List.cons.inj heq).2⟩
    rw [nameUnit_plain hplain]
    refine iff_of_true rfl ?_
    rintro ⟨high, low, -, ⟨tail, htail⟩, -, -⟩
    exact hplain high low tail htail.symm

/-- Decimal notation begins with a digit, or with a point and a digit. -/
theorem Numeral.begins_of_mantissa {text : Text} (h : mantissa text ≠ none) : Begins text := by
  by_cases hdigit : text.head?.any Char.isDigit = true
  · exact .inl hdigit
  · have hdigits : digits text = none := by
      rw [digits, manyOf_eq_none_iff, Bool.eq_false_iff]
      exact hdigit
    have hpoint : text.head? = some '.' := by
      by_contra hother
      exact h (mantissa_eq_none hdigits hother)
    obtain ⟨rest, rfl⟩ := List.head?_eq_some_iff.1 hpoint
    rw [mantissa_point, Ne, Option.map_eq_none_iff, digits, manyOf_eq_none_iff, Bool.not_eq_false,
      Option.any_eq_true] at h
    obtain ⟨c, hhead, hc⟩ := h
    obtain ⟨tail, rfl⟩ := List.head?_eq_some_iff.1 hhead
    exact .inr ⟨c, tail, rfl, hc⟩

/-- Where a character opens something in every edition, a rule answers. -/
theorem select_ne_none_of_opensAlways (hes5 : edition.includes .es5 = true) {c : Char} (rest : Text)
    (h : opensAlways c = true) : select edition context (c :: rest) ≠ none := by
  rw [select_eq]
  simp only [ne_eq, Option.or_eq_none_iff]
  rintro ⟨hblank, hnumeral, hquotation, -, hword, -, -, hoperator, hpunctuation⟩
  rw [firstOf_blankRules_eq_none_iff hes5, List.head?_cons, Option.any_some] at hblank
  rw [firstOf_quotationRules_eq_none_iff hes5, List.head?_cons, Option.any_some] at hquotation
  rw [firstOf_punctuationRules_eq_none_iff hes5, List.head?_cons, Option.any_some] at hpunctuation
  have hdigit : c.isDigit = false := by
    rw [Numeral.firstOf_numeralRules_eq_none_iff hes5] at hnumeral
    rw [Bool.eq_false_iff]
    intro hc
    have hbegins : Numeral.Begins (c :: rest) := .inl hc
    exact hbegins.mantissa_ne_none hnumeral
  have hname : isNameStart c = false := by
    rw [firstOf_wordRules_eq_none_iff hes5, Name.identifier_eq_none_iff] at hword
    exact Name.head?_of_nameUnit (by decide) hword
  have hop : opensOperator c = false := by
    rw [Bool.eq_false_iff]
    refine fun hopens => firstOf_operatorRules_ne_none hes5 rest hopens ?_ hoperator
    rintro rfl
    cases hpunctuation
  simp [opensAlways, hblank, hdigit, hquotation, hname, hop, hpunctuation] at h

theorem rulesOpenedBy_of_isForeign {c : Char} (h : isForeign c = true) : rulesOpenedBy c = [] := by
  have hopens : opensAlways c = false := by rw [opensAlways_eq, h]; rfl
  simp only [opensAlways, Bool.or_eq_false_iff] at hopens
  obtain ⟨⟨⟨⟨⟨hgap, hdigit⟩, hquotation⟩, hname⟩, hoperator⟩, hpunctuation⟩ := hopens
  have hne : ∀ d, isForeign d = false → (c == d) = false := by
    intro d hd
    rw [beq_eq_false_iff_ne]
    rintro rfl
    rw [h] at hd
    cases hd
  have hnumeral : opensNumeral c = false := by rw [opensNumeral, hdigit, hne '.' rfl]; rfl
  have htemplate : opensTemplate c = false := by
    rw [opensTemplate, hne Template.backquote rfl, hne '}' rfl]; rfl
  have hword : opensWord c = false := by rw [opensWord, hname, hne '\\' rfl]; rfl
  have hcomment : opensComment c = false := by
    rw [opensComment, hne '/' rfl, hne '-' rfl, hne '<' rfl]; rfl
  rw [isGap] at hgap
  simp [rulesOpenedBy, hgap, hnumeral, hquotation, htemplate, hword, hcomment, hne '/' rfl, hoperator,
    hpunctuation]

/-- No rule answers exactly where nothing that the edition knows begins. -/
theorem select_eq_none_iff (hes5 : edition.includes .es5 = true) {c : Char} {rest : Text} :
    select edition context (c :: rest) = none ↔ OpensNothing edition (c :: rest) := by
  constructor
  · intro hnone
    have hopens : opensAlways c = false := by
      rw [Bool.eq_false_iff]
      exact fun h => select_ne_none_of_opensAlways hes5 rest h hnone
    simp only [opensAlways_eq, Bool.not_eq_false', Bool.or_eq_true, beq_iff_eq] at hopens
    rw [select_eq] at hnone
    simp only [Option.or_eq_none_iff] at hnone
    obtain ⟨-, -, -, htemplate, hword, -⟩ := hnone
    rcases hopens with (hforeign | rfl) | rfl
    · exact .foreign rest hforeign
    · rw [templateRules_eq, firstOf_append, Option.or_eq_none_iff, firstOf_pieceRules_eq_none_iff,
        Bool.and_true] at htemplate
      have hbefore : ¬ edition.includes .es2015 = true := fun h => htemplate.1 h rfl
      exact .template rest (UInt32.not_le.1 fun h => hbefore (decide_eq_true h))
    · rw [firstOf_wordRules_eq_none_iff hes5, Name.identifier_backslash_eq_none_iff] at hword
      exact .escape hword
  · intro hopens
    rw [select_cons]
    cases hopens with
    | foreign _ h =>
      rw [rulesOpenedBy_of_isForeign h]
      rfl
    | template _ h =>
      have hopened : rulesOpenedBy Template.backquote = templateRules := rfl
      have hbefore : edition.includes .es2015 = false := decide_eq_false (UInt32.not_le.2 h)
      rw [hopened, templateRules_eq, firstOf_append, firstOf_pieceRules_skip (by simp [hbefore]),
        firstOf_pieceRules_skip (by simp [hbefore]), Option.none_or]
    | escape h =>
      have hopened : rulesOpenedBy '\\' = wordRules := rfl
      rw [hopened, firstOf_wordRules_eq_none_iff hes5, Name.identifier_backslash_eq_none_iff]
      exact h

end EcmaLex
