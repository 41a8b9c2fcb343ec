import EcmaLex.Proofs.Balance
import EcmaLex.Proofs.Diagnosis
import EcmaLex.Proofs.OneLine

/-!
# Sources of words, blanks and marks

In a text without digits, quotation marks, backquotes, backslashes and slashes nothing can be malformed but
a right brace, and each brace is a token of its own. So such a source is read to its end exactly if no right
brace comes before the left brace that it closes, and otherwise up to the first that does, as long as a counter
holds the left braces that are open.
-/

namespace EcmaLex

open Matcher

/-- The characters of words, blanks, line ends, punctuation and operators, the slash left out. -/
def isSimple (c : Char) : Bool :=
  isNameStart c || isGap c ||
    c ∈ [';', ',', '.', '(', ')', '[', ']', '{', '}', '+', '*', '=', '<', '>', '!', '?', ':', '~',
      '%', '^', '&', '|', '-']

/-- A text of such characters, without the marks of markup comments where these are known. -/
structure Simple (edition : Edition) (text : Text) : Prop where
  chars : ∀ c ∈ text, isSimple c = true
  unmarked : edition.includes .es2015 = true →
    ¬ ['-', '-', '>'] <:+: text ∧ ¬ ['<', '!', '-', '-'] <:+: text

/-- What a simple text leaves out. -/
theorem isSimple_eq (c : Char) :
    isSimple c = !(isForeign c || c.isDigit || opensQuotation c || c == Template.backquote ||
      c == '\\' || c == '/') := by
  by_cases hc : c.toNat < 128
  · refine Text.forall_ascii ?_ c hc
    decide +kernel
  · have hascii : Text.Ascii isSimple :=
      (Text.ascii_isNameStart.or ascii_isGap).or (ascii_of_mem (by decide))
    have hforeign : isForeign c = true := by
      simp only [isForeign, Nat.not_lt.1 hc, decide_true, Bool.true_or]
    have hnot : isSimple c = false := Bool.eq_false_iff.2 fun h => hc (hascii c h)
    simp only [hnot, hforeign, Bool.true_or, Bool.not_true]

variable {edition : Edition} {context : Context} {text : Text}

theorem Simple.of_suffix {tail : Text} (h : Simple edition text) (hsuffix : tail <:+ text) :
    Simple edition tail where
  chars c hc := h.chars c (hsuffix.mem hc)
  unmarked hes2015 :=
    ⟨fun hfound => (h.unmarked hes2015).1 (hfound.trans hsuffix.isInfix),
      fun hfound => (h.unmarked hes2015).2 (hfound.trans hsuffix.isInfix)⟩

/-- A rule steps over the braces of a text one at a time. -/
def Rule.Steps (rule : Rule) (edition : Edition) (context : Context) (text : Text) : Prop :=
  rule.applies edition context = true → ∀ kind, rule.action = .emit kind →
    ∀ lexeme rest, rule.matcher text = some (lexeme, rest) → BraceStep context.nesting kind lexeme

theorem steps_of_fail {rule : Rule} {diagnosis : Diagnosis} (h : rule.action = .fail diagnosis) :
    rule.Steps edition context text := by
  intro _ kind hemit
  rw [h] at hemit
  cases hemit

theorem steps_of_none {rule : Rule} (h : rule.matcher text = none) :
    rule.Steps edition context text := by
  intro _ kind _ lexeme rest hmatch
  rw [h] at hmatch
  cases hmatch

/-- A rule for a class of characters without braces. -/
theorem steps_of_within {rule : Rule} {p : Char → Bool} (h : rule.matcher.Within p)
    (hleft : p '{' = false) (hright : p '}' = false)
    (hkind : ∀ kind, rule.action = .emit kind →
      Context.nestingAfter context.nesting kind = context.nesting) :
    rule.Steps edition context text := by
  intro _ kind hemit lexeme rest hmatch
  refine .other (hkind kind hemit) fun c hc => ?_
  have hp := h hmatch c hc
  rw [isBrace, Bool.or_eq_false_iff, beq_eq_false_iff_ne, beq_eq_false_iff_ne]
  constructor
  · rintro rfl
    rw [hleft] at hp
    cases hp
  · rintro rfl
    rw [hright] at hp
    cases hp

/-- A rule that does not take part. -/
theorem steps_of_not_applies {rule : Rule} (h : ¬ rule.applies edition context = true) :
    rule.Steps edition context text :=
  fun happlies => absurd happlies h

theorem Simple.head {c : Char} {tail : Text} (h : Simple edition (c :: tail)) :
    isForeign c = false ∧ c.isDigit = false ∧ opensQuotation c = false ∧
      (c == Template.backquote) = false ∧ (c == '\\') = false ∧ (c == '/') = false := by
  have hc := h.chars c List.mem_cons_self
  rw [isSimple_eq, Bool.not_eq_true'] at hc
  simpa only [Bool.or_eq_false_iff, and_assoc] using hc

/-- A mark that the text leaves out is not read. -/
theorem steps_of_unmarked {rule : Rule} {opening : Text} (hmatcher : rule.matcher = toLineEnd opening)
    (h : rule.applies edition context = true → ¬ opening <:+: text) :
    rule.Steps edition context text := by
  intro happlies kind _ lexeme rest hmatch
  have hnone : toLineEnd opening text = none :=
    toLineEnd_eq_none_iff.2 fun hstarts => h happlies hstarts.isInfix
  rw [hmatcher, hnone] at hmatch
  cases hmatch

theorem steps_of_mem_punctuationRules :
    ∀ rule ∈ punctuationRules, rule.Steps edition context text := by
  have hmark : ∀ mark kind, isBrace mark = false →
      Context.nestingAfter context.nesting kind = context.nesting →
      Rule.Steps { matcher := exactly [mark], action := .emit kind } edition context text := by
    intro mark kind hmark hkind _ _ haction lexeme rest hmatch
    obtain ⟨rfl, -⟩ := exactly_eq_some_iff.1 hmatch
    obtain rfl := Action.emit.inj haction
    refine .other hkind fun c hc => ?_
    rwa [List.mem_singleton.1 hc]
  simp only [punctuationRules, List.forall_mem_cons, List.not_mem_nil, false_imp_iff, implies_true,
    and_true]
  refine ⟨hmark _ _ rfl rfl, hmark _ _ rfl rfl, hmark _ _ rfl rfl, hmark _ _ rfl rfl,
    hmark _ _ rfl rfl, hmark _ _ rfl rfl, hmark _ _ rfl rfl, ?opens, ?closes, steps_of_fail rfl⟩
  case opens =>
    intro _ kind haction lexeme rest hmatch
    obtain ⟨rfl, -⟩ := exactly_eq_some_iff.1 hmatch
    obtain rfl := Action.emit.inj haction
    exact .opens
  case closes =>
    intro happlies kind haction lexeme rest hmatch
    obtain ⟨rfl, -⟩ := exactly_eq_some_iff.1 hmatch
    obtain rfl := Action.emit.inj haction
    exact .closes (bne_iff_ne.1 (Bool.and_eq_true_iff.1 happlies).2)

/-- In a simple text outside every interpolation, each rule steps over the braces one at a time. -/
theorem steps_of_mem_rules {c : Char} {tail : Text} (hsimple : Simple edition (c :: tail))
    (houter : context.nesting.outer = []) :
    ∀ rule ∈ rules, rule.Steps edition context (c :: tail) := by
  obtain ⟨-, -, hquotation, hbackquote, -, hslash⟩ := hsimple.head
  have hend : context.nesting.atInterpolationEnd = false := by
    simp [Nesting.atInterpolationEnd, Nesting.inInterpolation, houter]
  refine forall_mem_rules.2 ⟨?blank, ?numeral, ?quotation, ?template, ?word, ?comment, ?regExp,
    ?operator, steps_of_mem_punctuationRules⟩
  case blank =>
    have hlineEnd : (oneOf [['\r', '\n'], ['\n'], ['\r']]).Within isLineTerminator :=
      within_oneOf (by decide)
    simp only [blankRules, List.forall_mem_cons, List.not_mem_nil, false_imp_iff, implies_true,
      and_true]
    exact ⟨steps_of_within (within_one _) rfl rfl (by rintro _ ⟨⟩; rfl),
      steps_of_within hlineEnd rfl rfl (by rintro _ ⟨⟩; rfl)⟩
  case numeral =>
    intro rule hmem
    refine steps_of_within (within_of_mem_numeralRules rule hmem) (by decide) (by decide) ?_
    intro kind hemit
    rcases action_of_mem_numeralRules rule hmem with ⟨hliteral, -⟩ | ⟨problem, hfail⟩
    · obtain rfl := Action.emit.inj (hliteral.symm.trans hemit)
      rfl
    · rw [hfail] at hemit
      cases hemit
  case quotation =>
    exact fun rule hmem => steps_of_none (opensOn_quotationRules rule hmem tail hquotation)
  case template =>
    have hfirst : ∀ stop, Template.piece Template.backquote stop (c :: tail) = none :=
      fun stop => Template.opensOn_piece _ stop tail hbackquote
    have hlater : ¬ (edition.includes .es2015 && context.nesting.atInterpolationEnd) = true := by
      rw [hend, Bool.and_false]
      decide
    simp only [templateRules, List.forall_mem_cons, List.not_mem_nil, false_imp_iff, implies_true,
      and_true]
    exact ⟨steps_of_none (hfirst _), steps_of_none (hfirst _), steps_of_fail rfl,
      steps_of_not_applies hlater, steps_of_not_applies hlater, steps_of_fail rfl⟩
  case word =>
    intro rule hmem
    refine steps_of_within (within_of_mem_wordRules rule hmem) (by decide) (by decide) ?_
    simp only [wordRules, List.mem_cons, List.not_mem_nil, or_false] at hmem
    rcases hmem with rfl | rfl | rfl | rfl <;> rintro _ ⟨⟩ <;> rfl
  case comment =>
    simp only [commentRules, List.forall_mem_cons, List.not_mem_nil, false_imp_iff, implies_true,
      and_true]
    exact ⟨steps_of_none (opensOn_toLineEnd _ _ tail hslash),
      steps_of_none (Comment.opensOn_block tail hslash), steps_of_fail rfl,
      steps_of_unmarked rfl fun h => (hsimple.unmarked (Bool.and_eq_true_iff.1 h).1).1,
      steps_of_unmarked rfl fun h => (hsimple.unmarked (Bool.and_eq_true_iff.1 h).1).2⟩
  case regExp =>
    exact fun rule hmem => steps_of_none (opensOn_regExpRules rule hmem tail hslash)
  case operator =>
    intro rule hmem
    refine steps_of_within (within_of_mem_operatorRules rule hmem) (by decide) (by decide) ?_
    simp only [operatorRules, List.mem_cons, List.not_mem_nil, or_false] at hmem
    rcases hmem with rfl | rfl | rfl <;> rintro _ ⟨⟩ <;> rfl

/-- No numeral begins in a simple text. -/
theorem Simple.mantissa_eq_none (h : Simple edition text) : Numeral.mantissa text = none := by
  have hdigit : ∀ c ∈ text, c.isDigit = false := by
    intro c hc
    have hsimple := h.chars c hc
    simp only [isSimple_eq, Bool.not_eq_true', Bool.or_eq_false_iff] at hsimple
    exact hsimple.1.1.1.1.2
  by_contra hfound
  rcases Numeral.begins_of_mantissa hfound with hhead | ⟨c, tail, rfl, hc⟩
  · obtain ⟨c, hc, hcdigit⟩ := (Option.any_eq_true _ _).1 hhead
    rw [hdigit c (List.mem_of_head? hc)] at hcdigit
    cases hcdigit
  · rw [hdigit c (by simp)] at hc
    cases hc

/-- Of a simple text outside every interpolation, only a right brace can be malformed. -/
theorem brace_of_malformed {c : Char} {tail : Text} {diagnosis : Diagnosis}
    (hes5 : edition.includes .es5 = true) (hsimple : Simple edition (c :: tail))
    (houter : context.nesting.outer = []) (h : Malformed edition context (c :: tail) diagnosis) :
    c = '}' ∧ diagnosis = .unmatchedBrace ∧ context.nesting.top = 0 := by
  obtain ⟨-, -, hquotation, hbackquote, -, hslash⟩ := hsimple.head
  cases h with
  | numeral hreads =>
    have hanswers : firstOf numeralRules edition context (c :: tail) = some _ := hreads.firstOf_eq hes5
    rw [(Numeral.firstOf_numeralRules_eq_none_iff hes5).2 hsimple.mantissa_eq_none] at hanswers
    cases hanswers
  | string hquote =>
    rw [hquotation] at hquote
    cases hquote
  | template => cases hbackquote
  | templateSection _ hend =>
    exact absurd houter (Nesting.atInterpolationEnd_iff.1 hend).1
  | comment => cases hslash
  | regExp => cases hslash
  | brace _ htop => exact ⟨rfl, rfl, htop⟩

/-- A simple text is never unrecognized. -/
theorem not_opensNothing {c : Char} {tail : Text} (hsimple : Simple edition (c :: tail)) :
    ¬ OpensNothing edition (c :: tail) := by
  obtain ⟨hforeign, -, -, hbackquote, hbackslash, -⟩ := hsimple.head
  intro hnothing
  cases hnothing with
  | foreign _ h =>
    rw [hforeign] at h
    cases h
  | template => cases hbackquote
  | escape => cases hbackslash

/-- A token of a simple text, outside every interpolation, steps over its braces one at a time. -/
theorem braceStep_of_select {kind : TokenKind} {lexeme rest : Text} (hsimple : Simple edition text)
    (houter : context.nesting.outer = [])
    (h : select edition context text = some { action := .emit kind, lexeme, rest }) :
    BraceStep context.nesting kind lexeme := by
  obtain ⟨c, tail, rfl⟩ := List.exists_cons_of_ne_nil (ne_nil_of_select h)
  obtain ⟨rule, hmem, hsince, hguard, haction, hmatch⟩ := exists_of_select h
  have happlies : rule.applies edition context = true := Bool.and_eq_true_iff.2 ⟨hsince, hguard⟩
  exact steps_of_mem_rules hsimple houter rule hmem happlies kind haction lexeme rest hmatch

/-- Where a simple text is ahead, outside every interpolation, there is a token, or a right brace with none to
close. -/
theorem select_simple {c : Char} {tail : Text} (hes5 : edition.includes .es5 = true)
    (hsimple : Simple edition (c :: tail)) (houter : context.nesting.outer = []) :
    (∃ kind lexeme rest,
      select edition context (c :: tail) = some { action := .emit kind, lexeme, rest }) ∨
    c = '}' ∧ context.nesting.top = 0 ∧
      select edition context (c :: tail) =
        some { action := .fail .unmatchedBrace, lexeme := ['}'], rest := tail } := by
  cases hselect : select edition context (c :: tail) with
  | none => exact absurd ((select_eq_none_iff hes5).1 hselect) (not_opensNothing hsimple)
  | some found =>
    obtain ⟨action, lexeme, rest⟩ := found
    cases action with
    | emit kind => exact .inl ⟨kind, lexeme, rest, rfl⟩
    | fail diagnosis =>
      obtain ⟨rfl, rfl, htop⟩ := brace_of_malformed hes5 hsimple houter
        (malformed_of_select hes5 hselect)
      obtain ⟨rule, hmem, -, hguard, haction, hmatch⟩ := exists_of_select hselect
      have hmatcher := (of_fail_unmatchedBrace context rule hmem hguard haction).2
      rw [hmatcher, exactly_eq_some_iff] at hmatch
      obtain ⟨rfl, happend⟩ := hmatch
      obtain rfl : rest = tail := (List.cons.inj happend).2
      exact .inr ⟨rfl, htop, rfl⟩

namespace Lexer

/-- After every row of tokens of a simple source, the nesting counts the braces read. -/
theorem Emits.counts {source : Text} {settings : Settings} {tokens : List Token} {now : Lexer}
    (h : Emits (ofText source settings) tokens now) (hsimple : Simple settings.edition source) :
    Token.texts tokens ++ now.cursor.rest = source ∧
      Counts (Token.texts tokens) now.context.nesting ∧ Closes (Token.texts tokens) := by
  refine h.induction (P := fun tokens cursor context =>
    Token.texts tokens ++ cursor.rest = source ∧
      Counts (Token.texts tokens) context.nesting ∧ Closes (Token.texts tokens)) ?_ ?_
  · exact ⟨rfl, ⟨rfl, rfl⟩, fun before hbefore => by simp [Token.texts] at hbefore⟩
  · rintro tokens now kind lexeme rest ⟨htexts, hcounts, hcloses⟩ hsettings hselect
    have happend : lexeme ++ rest = now.cursor.rest := (append_of_select hselect).2
    have hlater : Token.texts (tokens ++ [now.tokenOf kind lexeme]) = Token.texts tokens ++ lexeme := by
      simp [Token.texts, tokenOf]
    -- What is ahead is the end of the source, and so is simple as well.
    have hahead : Simple settings.edition now.cursor.rest := hsimple.of_suffix ⟨_, htexts⟩
    have hstep : BraceStep now.context.nesting kind lexeme := by
      rw [selection, hsettings] at hselect
      exact braceStep_of_select hahead hcounts.outer hselect
    rw [hlater, Context.nesting_observe, List.append_assoc]
    exact ⟨by rw [← htexts, ← happend]; rfl, hstep.counts hcounts hcloses⟩

end Lexer

/-- A simple source is read to its end, or up to the first right brace at which the counter is zero. -/
theorem simple_run {source : Text} {settings : Settings}
    (hes5 : settings.edition.includes .es5 = true) (hsimple : Simple settings.edition source)
    (hlimit : source.length ≤ settings.iterationLimit.toNat) :
    (Closes source ∧ ∃ tokens, tokenize source settings = .ok tokens) ∨
    ∃ left right span, source = left ++ '}' :: right ∧ Closes left ∧
      left.count '{' % 2 ^ 32 = left.count '}' % 2 ^ 32 ∧
      span.start = left.byteSize ∧ span.stop = left.byteSize + 1 ∧
      tokenize source settings = .error (.unmatchedBrace span) := by
  obtain ⟨last, hemits, hnext⟩ := Lexer.exists_emits_run (Lexer.ofText source settings)
  obtain ⟨htexts, hcounts, hcloses⟩ := hemits.counts hsimple
  have hsettings : last.settings = settings := hemits.settings_eq
  have hcanFinish := hemits.canFinish (Lexer.canFinish_ofText hlimit)
  have hahead : Simple settings.edition last.cursor.rest := hsimple.of_suffix ⟨_, htexts⟩
  cases hrest : last.cursor.rest with
  | nil =>
    rw [hrest, List.append_nil] at htexts
    rw [htexts] at hcloses
    exact .inl ⟨hcloses, _, Lexer.tokenize_eq_ok_iff.2 ⟨last, hemits, hrest⟩⟩
  | cons c tail =>
    have hlive : last.Live := hcanFinish.live (by rw [hrest]; exact List.cons_ne_nil _ _)
    rw [hrest] at hahead htexts
    rcases select_simple hes5 hahead hcounts.outer with
      ⟨kind, lexeme, rest, hselect⟩ | ⟨rfl, htop, hselect⟩
    · have hselection : last.selection = some { action := .emit kind, lexeme, rest } := by
        rw [Lexer.selection, hsettings, hrest, hselect]
      rw [(Lexer.Call.emitted hlive hselection).next_eq] at hnext
      cases hfault : (Lexer.ofText source settings).run.fault <;> rw [hfault] at hnext <;> cases hnext
    · have hselection : last.selection =
          some { action := .fail .unmatchedBrace, lexeme := ['}'], rest := tail } := by
        rw [Lexer.selection, hsettings, hrest, hselect]
      have hstop := (Lexer.Call.failed hlive hselection).next_eq
      have hposition := hemits.partition.stands.position_eq
      refine .inr ⟨_, tail, last.cursor.spanOf ['}'], htexts.symm, hcloses,
        hcounts.top_eq_zero_iff.1 htop, hposition, ?_, ?_⟩
      · rw [← hposition]
        rfl
      · apply Lexer.Run.result_eq_error_iff.2
        rw [hemits.run_eq, Lexer.run_of_next_error hstop]
        rfl

/-- The exact law: a simple source is read to its end exactly if the counter is zero at no right brace. -/
theorem simple_tokenize_iff {source : Text} {settings : Settings}
    (hes5 : settings.edition.includes .es5 = true) (hsimple : Simple settings.edition source)
    (hlimit : source.length ≤ settings.iterationLimit.toNat) :
    (∃ tokens, tokenize source settings = .ok tokens) ↔ Closes source := by
  rcases simple_run hes5 hsimple hlimit with
    ⟨hcloses, hok⟩ | ⟨left, right, span, hsource, -, hcount, -, -, herror⟩
  · exact iff_of_true hok hcloses
  · refine iff_of_false ?_ fun hcloses => ?_
    · rw [herror]
      exact nofun
    · exact hcloses left ⟨right, by rw [hsource]; simp⟩ hcount

/-- A simple source in which no more left braces are open at once than a counter holds is read to its end
exactly if nowhere in it there are more right braces than left braces before. Otherwise the scan stops at the
first right brace that is one too many, and says so. For sources with more open at once `simple_tokenize_iff`
is the law. -/
theorem simple_accepted (source : Text) (settings : Settings)
    (hes5 : settings.edition.includes .es5 = true) (hsimple : Simple settings.edition source)
    (hlimit : source.length ≤ settings.iterationLimit.toNat) (hholds : ¬ Overflows source) :
    ((∃ tokens, tokenize source settings = .ok tokens) ↔ Balanced source) ∧
      (¬ Balanced source →
        ∃ left right span, source = left ++ '}' :: right ∧ Balanced left ∧
          left.count '}' = left.count '{' ∧
          span.start = left.byteSize ∧ span.stop = left.byteSize + 1 ∧
          tokenize source settings = .error (.unmatchedBrace span)) := by
  refine ⟨(simple_tokenize_iff hes5 hsimple hlimit).trans (balanced_iff_closes hholds).symm, ?_⟩
  intro hunbalanced
  rcases simple_run hes5 hsimple hlimit with
    ⟨hcloses, -⟩ | ⟨left, right, span, hsource, hcloses, hcount, hstart, hstop, herror⟩
  · exact absurd ((balanced_iff_closes hholds).2 hcloses) hunbalanced
  · have hstarts : left <+: source := ⟨'}' :: right, hsource.symm⟩
    have hbalanced : Balanced left :=
      (balanced_iff_closes fun hover => hholds (hover.of_prefix hstarts)).2 hcloses
    have hle := hbalanced left (List.prefix_refl _)
    have hbelow : left.count '{' < left.count '}' + 2 ^ 32 :=
      Nat.not_le.1 fun hover => hholds ⟨left, hstarts, hover⟩
    exact ⟨left, right, span, hsource, hbalanced, by omega, hstart, hstop, herror⟩

/-- A right brace too many, behind a block that is closed. -/
theorem simple_accepted_unbalanced :
    let source : Text := ['i', 'f', ' ', '{', '}', '\n', '}', '{']
    let settings : Settings := { edition := .es2015 }
    settings.edition.includes .es5 = true ∧ Simple settings.edition source ∧
      source.length ≤ settings.iterationLimit.toNat ∧ ¬ Overflows source ∧
      ∃ left right span, source = left ++ '}' :: right ∧ Balanced left ∧
        left.count '}' = left.count '{' ∧
        span.start = left.byteSize ∧ span.stop = left.byteSize + 1 ∧
        tokenize source settings = .error (.unmatchedBrace span) := by
  intro source settings
  have hsimple : Simple settings.edition source := ⟨by decide, by decide⟩
  have hlimit : source.length ≤ settings.iterationLimit.toNat := by decide
  have hholds : ¬ Overflows source := fun hover => absurd hover.le_length (by decide)
  have hunbalanced : ¬ Balanced source := fun h =>
    absurd (h ['i', 'f', ' ', '{', '}', '\n', '}'] (by decide)) (by decide)
  obtain ⟨-, hfails⟩ := simple_accepted source settings (by decide) hsimple hlimit hholds
  exact ⟨by decide, hsimple, hlimit, hholds, hfails hunbalanced⟩

theorem simple_leftBraces (n : Nat) : Simple .es5 (List.replicate n '{' ++ ['}']) where
  chars c hc := by
    rcases List.mem_append.1 hc with hleft | hright
    · rw [List.eq_of_mem_replicate hleft]
      rfl
    · rw [List.mem_singleton.1 hright]
      rfl
  unmarked hes2015 := absurd hes2015 (by decide)

/-- With `2 ^ 32` left braces open the counter is at zero again. So a right brace behind them is refused, though
it closes the last of them. -/
theorem simple_refused_balanced :
    let source : Text := List.replicate (2 ^ 32) '{' ++ ['}']
    let settings : Settings := { iterationLimit := 8589934592 }
    settings.edition.includes .es5 = true ∧ Simple settings.edition source ∧
      source.length ≤ settings.iterationLimit.toNat ∧ Balanced source ∧
      ¬ ∃ tokens, tokenize source settings = .ok tokens := by
  intro source settings
  have hlimit : source.length ≤ settings.iterationLimit.toNat := by
    rw [List.length_append, List.length_replicate]
    decide
  have hsimple : Simple settings.edition source := simple_leftBraces _
  refine ⟨by decide, hsimple, hlimit, balanced_leftBraces (by decide), ?_⟩
  rw [simple_tokenize_iff (by decide) hsimple hlimit]
  exact not_closes_leftBraces (by decide)

end EcmaLex
