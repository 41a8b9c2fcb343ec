import EcmaLex.Rule.Table

/-!
# Which rules a character can open

Every family of rules only reads texts that begin with certain characters. `select` is the first
answer of the families in their order, and a family that the first character does not open answers
nothing: `firstOf_eq_none`. So only the families that it opens have to be asked: `select_cons`.
-/

namespace EcmaLex

namespace Matcher

/-- The matcher reads no text whose first character fails `p`. -/
def OpensOn (matcher : Matcher) (p : Char → Bool) : Prop :=
  ∀ ⦃c : Char⦄ (rest : Text), p c = false → matcher (c :: rest) = none

theorem OpensOn.mono {matcher : Matcher} {p q : Char → Bool} (h : matcher.OpensOn p)
    (hpq : ∀ c, q c = false → p c = false) : matcher.OpensOn q := by
  intro c rest hc
  exact h rest (hpq c hc)

theorem opensOn_one (p : Char → Bool) : (one p).OpensOn p := by
  intro c rest hc
  simp [one, hc]

theorem opensOn_manyOf (p : Char → Bool) : (manyOf p).OpensOn p := by
  intro c rest hc
  simp [manyOf, hc]

theorem opensOn_exactly (c : Char) (spelling : Text) :
    (exactly (c :: spelling)).OpensOn (· == c) := by
  intro d rest hd
  have hcd : (c == d) = false := by rw [Bool.beq_comm]; exact hd
  simp [exactly, List.isPrefixOf, hcd]

theorem opensOn_toLineEnd (c : Char) (opening : Text) :
    (toLineEnd (c :: opening)).OpensOn (· == c) := by
  intro d rest hd
  have hcd : (c == d) = false := by rw [Bool.beq_comm]; exact hd
  simp [toLineEnd, List.isPrefixOf, hcd]

theorem opensOn_oneOf {spellings : List Text} {p : Char → Bool}
    (h : ∀ spelling ∈ spellings, ∃ c tail, spelling = c :: tail ∧ p c = true) :
    (oneOf spellings).OpensOn p := by
  intro d rest hd
  refine List.findSome?_eq_none_iff.2 fun spelling hmem => ?_
  obtain ⟨c, tail, rfl, hc⟩ := h spelling hmem
  refine opensOn_exactly c tail rest ?_
  show (d == c) = false
  rw [beq_eq_false_iff_ne]
  intro heq
  rw [heq, hc] at hd
  cases hd

theorem OpensOn.orElse {first second : Matcher} {p : Char → Bool} (hf : first.OpensOn p)
    (hs : second.OpensOn p) : (first.orElse second).OpensOn p := by
  intro c rest hc
  simp only [Matcher.orElse, hf rest hc, hs rest hc]

theorem OpensOn.andThen {first : Matcher} {p : Char → Bool} (hf : first.OpensOn p)
    (second : Matcher) : (first.andThen second).OpensOn p := by
  intro c rest hc
  simp only [Matcher.andThen, hf rest hc]

theorem OpensOn.standalone {matcher : Matcher} {p : Char → Bool} (h : matcher.OpensOn p)
    (goesOn : Char → Bool) : (matcher.standalone goesOn).OpensOn p := by
  intro c rest hc
  simp only [Matcher.standalone, h rest hc]

end Matcher

open Matcher

/-- The characters that open a numeral. -/
def opensNumeral (c : Char) : Bool :=
  c.isDigit || c == '.'

/-- The characters that open a name or a reserved word. -/
def opensWord (c : Char) : Bool :=
  isNameStart c || c == '\\'

def opensQuotation (c : Char) : Bool :=
  c == Quotation.singleQuote || c == Quotation.doubleQuote

/-- The characters that open a piece of a template. -/
def opensTemplate (c : Char) : Bool :=
  c == Template.backquote || c == '}'

def opensComment (c : Char) : Bool :=
  c == '/' || c == '-' || c == '<'

def opensOperator (c : Char) : Bool :=
  c ∈ ['=', '.', '*', '&', '|', '+', '-', '!', '<', '>', '/', '%', '^', '?', ':', '~']

def isPunctuation (c : Char) : Bool :=
  c ∈ ['.', ',', ';', '(', ')', '[', ']', '{', '}']

namespace Numeral

theorem opensOn_inRadix (radix : Radix) : (inRadix radix).OpensOn opensNumeral := by
  intro c rest hc
  unfold inRadix
  split
  · next heq =>
    obtain ⟨rfl, -⟩ := List.cons.inj heq
    simp [opensNumeral] at hc
  · rfl

theorem opensOn_radixMark (radix : Radix) : (radixMark radix).OpensOn opensNumeral := by
  intro c rest hc
  unfold radixMark
  split
  · next heq =>
    obtain ⟨rfl, -⟩ := List.cons.inj heq
    simp [opensNumeral] at hc
  · rfl

theorem opensOn_leadingZero : leadingZero.OpensOn opensNumeral := by
  intro c rest hc
  unfold leadingZero
  split
  · next heq =>
    obtain ⟨rfl, -⟩ := List.cons.inj heq
    simp [opensNumeral] at hc
  · rfl

theorem opensOn_mantissa : mantissa.OpensOn opensNumeral := by
  have hdigits : digits.OpensOn opensNumeral := by
    refine (opensOn_manyOf _).mono fun c hc => ?_
    simp only [opensNumeral, Bool.or_eq_false_iff] at hc
    exact hc.1
  refine OpensOn.orElse ?_ ?_
  · intro c rest hc
    simp only [wholeFirst, hdigits rest hc]
  · intro c rest hc
    unfold pointFirst
    split
    · next heq =>
      obtain ⟨rfl, -⟩ := List.cons.inj heq
      simp [opensNumeral] at hc
    · rfl

end Numeral

theorem Template.opensOn_piece (opening : Char) (stop : Stop) :
    (piece opening stop).OpensOn (· == opening) := by
  intro c rest hc
  have hne : c ≠ opening := by simpa using hc
  simp only [piece, if_neg hne]

theorem Name.opensOn_wordIn {words : List Text}
    (h : ∀ word ∈ words, ∃ c tail, word = c :: tail ∧ isNameStart c = true) :
    (wordIn words).OpensOn opensWord := by
  intro c rest hc
  simp only [opensWord, Bool.or_eq_false_iff] at hc
  have hmem : (c :: rest).takeWhile isNamePart ∉ words := by
    intro hmem
    obtain ⟨d, tail, heq, hd⟩ := h _ hmem
    rw [List.takeWhile_cons] at heq
    split at heq
    · rw [← (List.cons.inj heq).1, hc.1] at hd
      cases hd
    · cases heq
  simp only [wordIn, if_neg hmem]

theorem Name.opensOn_identifier : identifier.OpensOn opensWord := by
  intro c rest hc
  simp only [opensWord, Bool.or_eq_false_iff, beq_eq_false_iff_ne] at hc
  have hunit : nameUnit isNameStart (c :: rest) = none := by
    unfold nameUnit
    split
    · next heq => cases heq
    · next heq => exact absurd (List.cons.inj heq).1 hc.2
    · next heq =>
      obtain ⟨rfl, -⟩ := List.cons.inj heq
      simp [hc.1]
  simp only [identifier, hunit]

theorem Comment.opensOn_block : block.OpensOn (· == '/') := by
  intro c rest hc
  unfold block
  split
  · next heq =>
    obtain ⟨rfl, -⟩ := List.cons.inj heq
    simp at hc
  · rfl

theorem RegExp.opensOn_regExp : regExp.OpensOn (· == '/') := by
  intro c rest hc
  unfold regExp
  split
  · rfl
  · next heq =>
    obtain ⟨rfl, -⟩ := List.cons.inj heq
    simp at hc
  · rfl

theorem Quotation.opensOn_string : string.OpensOn opensQuotation := by
  intro c rest hc
  have hne : ¬ (c = singleQuote || c = doubleQuote) = true := by
    simpa [opensQuotation] using hc
  simp only [string, if_neg hne]

/-- What the first rule of a family that takes part and matches finds at the start of a text. -/
def firstOf (family : List Rule) (edition : Edition) (context : Context) (text : Text) :
    Option Selection :=
  family.findSome? fun rule => rule.find? edition context text

theorem firstOf_append (first last : List Rule) (edition : Edition) (context : Context)
    (text : Text) :
    firstOf (first ++ last) edition context text =
      (firstOf first edition context text).or (firstOf last edition context text) :=
  List.findSome?_append

/-- A rule whose matcher reads nothing here makes no difference. -/
theorem firstOf_cons_of_none {rule : Rule} {text : Text} (h : rule.matcher text = none)
    (later : List Rule) (edition : Edition) (context : Context) :
    firstOf (rule :: later) edition context text = firstOf later edition context text := by
  simp only [firstOf, List.findSome?_cons, Rule.find?, h, Option.map_none, ite_self]

/-- A selection is what some rule of the family finds. -/
theorem exists_of_firstOf {family : List Rule} {edition : Edition} {context : Context} {text : Text}
    {found : Selection} (h : firstOf family edition context text = some found) :
    ∃ rule ∈ family, rule.applies edition context = true ∧ rule.action = found.action ∧
      rule.matcher text = some (found.lexeme, found.rest) := by
  obtain ⟨rule, hmem, hfind⟩ := List.exists_of_findSome?_eq_some h
  exact ⟨rule, hmem, Rule.find?_eq_some_iff.1 hfind⟩

theorem firstOf_eq_none_iff {family : List Rule} {edition : Edition} {context : Context}
    {text : Text} :
    firstOf family edition context text = none ↔
      ∀ rule ∈ family, rule.applies edition context = true → rule.matcher text = none := by
  simp only [firstOf, List.findSome?_eq_none_iff, Rule.find?]
  constructor
  · intro h rule hmem happlies
    have hnone := h rule hmem
    rw [if_pos happlies, Option.map_eq_none_iff] at hnone
    exact hnone
  · intro h rule hmem
    split
    · next happlies => rw [h rule hmem happlies, Option.map_none]
    · rfl

/-- Every matcher of the family only reads texts that begin with a character satisfying `p`. -/
def FamilyOpensOn (family : List Rule) (p : Char → Bool) : Prop :=
  ∀ rule ∈ family, rule.matcher.OpensOn p

theorem firstOf_eq_none {family : List Rule} {p : Char → Bool} (h : FamilyOpensOn family p)
    {edition : Edition} {context : Context} {c : Char} {rest : Text} (hc : p c = false) :
    firstOf family edition context (c :: rest) = none :=
  firstOf_eq_none_iff.2 fun rule hmem _ => h rule hmem rest hc

theorem opensOn_blankRules : FamilyOpensOn blankRules fun c => isBlank c || isLineTerminator c := by
  simp only [FamilyOpensOn, blankRules, List.forall_mem_cons, List.not_mem_nil, false_imp_iff,
    implies_true, and_true]
  constructor
  · refine (opensOn_one _).mono fun c hc => ?_
    simp only [Bool.or_eq_false_iff] at hc
    exact hc.1
  · refine opensOn_oneOf ?_
    simp only [List.forall_mem_cons, List.not_mem_nil, false_imp_iff, implies_true, and_true]
    exact ⟨⟨_, _, rfl, by decide⟩, ⟨_, _, rfl, by decide⟩, ⟨_, _, rfl, by decide⟩⟩

theorem opensOn_numeralRules : FamilyOpensOn numeralRules opensNumeral := by
  have hradix := Numeral.opensOn_inRadix
  have hmark := Numeral.opensOn_radixMark
  have hlow := (hradix .binary).orElse (hradix .octal)
  have hhigh := Numeral.opensOn_leadingZero.orElse (hradix .hexadecimal)
  have hmantissa := Numeral.opensOn_mantissa
  have hexponent : Numeral.exponentMark.OpensOn opensNumeral := hmantissa.andThen _
  have hscientific : Numeral.scientific.OpensOn opensNumeral := hexponent.andThen _
  simp only [FamilyOpensOn, numeralRules, List.forall_mem_cons, List.not_mem_nil, false_imp_iff,
    implies_true, and_true]
  exact ⟨(hradix _).standalone _, (hradix _).standalone _, Numeral.opensOn_leadingZero.standalone _,
    (hradix _).standalone _, hlow.andThen _, hhigh.andThen _, hlow.andThen _, hhigh.andThen _,
    hmark _, hmark _, hmark _, hscientific.standalone _, hscientific.andThen _, hexponent,
    hmantissa.standalone _, hmantissa.andThen _⟩

theorem opensOn_quotationRules : FamilyOpensOn quotationRules opensQuotation := by
  simp only [FamilyOpensOn, quotationRules, List.forall_mem_cons, List.not_mem_nil, false_imp_iff,
    implies_true, and_true]
  refine ⟨Quotation.opensOn_string, OpensOn.orElse ?_ ?_⟩
  · refine (opensOn_toLineEnd _ _).mono fun c hc => ?_
    simp only [opensQuotation, Bool.or_eq_false_iff] at hc
    exact hc.1
  · refine (opensOn_toLineEnd _ _).mono fun c hc => ?_
    simp only [opensQuotation, Bool.or_eq_false_iff] at hc
    exact hc.2

theorem opensOn_templateRules : FamilyOpensOn templateRules opensTemplate := by
  have hquote : ∀ c, opensTemplate c = false → (c == Template.backquote) = false := by
    intro c hc
    simp only [opensTemplate, Bool.or_eq_false_iff] at hc
    exact hc.1
  have hbrace : ∀ c, opensTemplate c = false → (c == '}') = false := by
    intro c hc
    simp only [opensTemplate, Bool.or_eq_false_iff] at hc
    exact hc.2
  have hpiece := Template.opensOn_piece
  simp only [FamilyOpensOn, templateRules, List.forall_mem_cons, List.not_mem_nil, false_imp_iff,
    implies_true, and_true]
  exact ⟨(hpiece _ _).mono hquote, (hpiece _ _).mono hquote, (opensOn_toLineEnd _ _).mono hquote,
    (hpiece _ _).mono hbrace, (hpiece _ _).mono hbrace, (opensOn_toLineEnd _ _).mono hbrace⟩

theorem opensOn_wordRules : FamilyOpensOn wordRules opensWord := by
  have hopens : ∀ words : List Text, (words.all fun word => word.head?.any isNameStart) = true →
      ∀ word ∈ words, ∃ c tail, word = c :: tail ∧ isNameStart c = true := by
    intro words hall word hmem
    have hhead := List.all_eq_true.1 hall word hmem
    cases word with
    | nil => cases hhead
    | cons c tail => exact ⟨c, tail, rfl, hhead⟩
  simp only [FamilyOpensOn, wordRules, List.forall_mem_cons, List.not_mem_nil, false_imp_iff,
    implies_true, and_true]
  exact ⟨Name.opensOn_wordIn (hopens _ (by decide +kernel)),
    Name.opensOn_wordIn (hopens _ (by decide +kernel)),
    Name.opensOn_wordIn (hopens _ (by decide +kernel)), Name.opensOn_identifier⟩

theorem opensOn_commentRules : FamilyOpensOn commentRules opensComment := by
  have hslash : ∀ c, opensComment c = false → (c == '/') = false := by
    intro c hc
    simp only [opensComment, Bool.or_eq_false_iff] at hc
    exact hc.1.1
  simp only [FamilyOpensOn, commentRules, List.forall_mem_cons, List.not_mem_nil, false_imp_iff,
    implies_true, and_true]
  refine ⟨(opensOn_toLineEnd _ _).mono hslash, Comment.opensOn_block.mono hslash,
    (opensOn_toLineEnd _ _).mono hslash, (opensOn_toLineEnd _ _).mono fun c hc => ?_,
    (opensOn_toLineEnd _ _).mono fun c hc => ?_⟩
  · simp only [opensComment, Bool.or_eq_false_iff] at hc
    exact hc.1.2
  · simp only [opensComment, Bool.or_eq_false_iff] at hc
    exact hc.2

theorem opensOn_regExpRules : FamilyOpensOn regExpRules (· == '/') := by
  simp only [FamilyOpensOn, regExpRules, List.forall_mem_cons, List.not_mem_nil, false_imp_iff,
    implies_true, and_true]
  exact ⟨RegExp.opensOn_regExp, opensOn_toLineEnd _ _⟩

theorem opensOn_operatorRules : FamilyOpensOn operatorRules opensOperator := by
  have hopens : ∀ spellings : List Text,
      (spellings.all fun spelling => spelling.head?.any opensOperator) = true →
      ∀ spelling ∈ spellings, ∃ c tail, spelling = c :: tail ∧ opensOperator c = true := by
    intro spellings hall spelling hmem
    have hhead := List.all_eq_true.1 hall spelling hmem
    cases spelling with
    | nil => cases hhead
    | cons c tail => exact ⟨c, tail, rfl, hhead⟩
  simp only [FamilyOpensOn, operatorRules, List.forall_mem_cons, List.not_mem_nil, false_imp_iff,
    implies_true, and_true]
  exact ⟨opensOn_oneOf (hopens _ (by decide +kernel)), opensOn_oneOf (hopens _ (by decide +kernel)),
    opensOn_oneOf (hopens _ (by decide +kernel))⟩

theorem opensOn_punctuationRules : FamilyOpensOn punctuationRules isPunctuation := by
  have hmem : ∀ d, isPunctuation d = true → ∀ c, isPunctuation c = false → (c == d) = false := by
    intro d hd c hc
    rw [beq_eq_false_iff_ne]
    intro heq
    rw [heq, hd] at hc
    cases hc
  simp only [FamilyOpensOn, punctuationRules, List.forall_mem_cons, List.not_mem_nil, false_imp_iff,
    implies_true, and_true]
  refine ⟨?_, ?_, ?_, ?_, ?_, ?_, ?_, ?_, ?_, ?_⟩ <;>
    exact (opensOn_exactly _ _).mono (hmem _ (by decide))

/-- The families answer in their order. -/
theorem select_eq (edition : Edition) (context : Context) (text : Text) :
    select edition context text =
      (firstOf blankRules edition context text).or
        ((firstOf numeralRules edition context text).or
          ((firstOf quotationRules edition context text).or
            ((firstOf templateRules edition context text).or
              ((firstOf wordRules edition context text).or
                ((firstOf commentRules edition context text).or
                  ((firstOf regExpRules edition context text).or
                    ((firstOf operatorRules edition context text).or
                      (firstOf punctuationRules edition context text)))))))) := by
  have hrules : select edition context text = firstOf rules edition context text := rfl
  simp only [hrules, rules, firstOf_append, Option.or_assoc]

/-- The rules of the families that a character can open, in their order. -/
def rulesOpenedBy (c : Char) : List Rule :=
  (if isBlank c || isLineTerminator c then blankRules else []) ++
    (if opensNumeral c then numeralRules else []) ++
    (if opensQuotation c then quotationRules else []) ++
    (if opensTemplate c then templateRules else []) ++
    (if opensWord c then wordRules else []) ++
    (if opensComment c then commentRules else []) ++
    (if c == '/' then regExpRules else []) ++
    (if opensOperator c then operatorRules else []) ++
    (if isPunctuation c then punctuationRules else [])

theorem firstOf_opened {family : List Rule} {p : Char → Bool} (h : FamilyOpensOn family p)
    (edition : Edition) (context : Context) (c : Char) (rest : Text) :
    firstOf (if p c then family else []) edition context (c :: rest) =
      firstOf family edition context (c :: rest) := by
  cases hc : p c with
  | true => rfl
  | false =>
    rw [firstOf_eq_none h hc]
    rfl

/-- Only the families that the first character can open have to be asked. -/
theorem select_cons (edition : Edition) (context : Context) (c : Char) (rest : Text) :
    select edition context (c :: rest) =
      firstOf (rulesOpenedBy c) edition context (c :: rest) := by
  simp only [rulesOpenedBy, firstOf_append, firstOf_opened opensOn_blankRules,
    firstOf_opened opensOn_numeralRules, firstOf_opened opensOn_quotationRules,
    firstOf_opened opensOn_templateRules, firstOf_opened opensOn_wordRules,
    firstOf_opened opensOn_commentRules, firstOf_opened opensOn_regExpRules,
    firstOf_opened opensOn_operatorRules, firstOf_opened opensOn_punctuationRules, Option.or_assoc]
  exact select_eq edition context (c :: rest)

end EcmaLex
