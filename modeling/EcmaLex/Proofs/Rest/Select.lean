import EcmaLex.Proofs.Piece
import EcmaLex.Proofs.Rest.Lexeme
import EcmaLex.Proofs.Rest.Numeral

/-!
# What the rules make of a lexeme, whatever stands behind it

A token is told by its lexeme and by a few things about the text behind it: `Exchangeable` lists them.
Where another text is like the first in these, the rules emit the same token in front of it:
`select_exchange`. The families are gone through in their order, and each has to find the same lexeme
again, or find nothing again.
-/

namespace EcmaLex

open Matcher

/-- `other` can stand behind a lexeme in place of `rest`, as far as a token of this kind can tell. -/
structure Exchangeable (kind : TokenKind) (lexeme rest other : Text) : Prop where
  shortens : Shortens other rest
  apart : ¬ SplitsPair lexeme other
  /-- A comment that goes to the end of its line still ends there. -/
  lineEnds : kind = .comment → ¬ ['/', '*'] <+: lexeme → rest.head?.all isLineBreak = true →
    other.head?.all isLineBreak = true
  brackets : RegExp.KeepsBrackets lexeme rest other

/-- What is read in front of `rest`, nothing or just this lexeme, is read in front of `other`. -/
structure Keeps (read : Text → Option Selection) (kind : TokenKind) (lexeme rest other : Text) :
    Prop where
  absent : read (lexeme ++ rest) = none → read (lexeme ++ other) = none
  emitted : read (lexeme ++ rest) = some { action := .emit kind, lexeme, rest } →
    read (lexeme ++ other) = some { action := .emit kind, lexeme, rest := other }

variable {edition : Edition} {context : Context} {kind : TokenKind} {lexeme rest other : Text}

theorem Keeps.or {first second : Text → Option Selection} (hf : Keeps first kind lexeme rest other)
    (hs : Keeps second kind lexeme rest other) :
    Keeps (fun text => (first text).or (second text)) kind lexeme rest other := by
  constructor
  · intro h
    rw [Option.or_eq_none_iff] at h ⊢
    exact ⟨hf.absent h.1, hs.absent h.2⟩
  · intro h
    rw [Option.or_eq_some_iff] at h ⊢
    exact h.imp hf.emitted fun h => ⟨hf.absent h.1, hs.emitted h.2⟩

theorem keeps_find? {rule : Rule}
    (habsent : rule.matcher (lexeme ++ rest) = none → rule.matcher (lexeme ++ other) = none)
    (hagain : rule.action = .emit kind → rule.matcher (lexeme ++ rest) = some (lexeme, rest) →
      rule.matcher (lexeme ++ other) = some (lexeme, other)) :
    Keeps (rule.find? edition context) kind lexeme rest other := by
  constructor
  · intro h
    unfold Rule.find? at h ⊢
    split at h
    · next happlies =>
      rw [if_pos happlies, Option.map_eq_none_iff]
      exact habsent (Option.map_eq_none_iff.1 h)
    · next happlies => exact if_neg happlies
  · intro h
    rw [Rule.find?_eq_some_iff] at h ⊢
    obtain ⟨happlies, haction, hmatch⟩ := h
    exact ⟨happlies, haction, hagain haction hmatch⟩

theorem keeps_nil : Keeps (firstOf [] edition context) kind lexeme rest other :=
  ⟨fun _ => rfl, fun h => (by cases h)⟩

theorem firstOf_cons (rule : Rule) (family : List Rule) :
    firstOf (rule :: family) edition context = fun text =>
      (rule.find? edition context text).or (firstOf family edition context text) := by
  funext text
  rw [firstOf, List.findSome?_cons]
  cases rule.find? edition context text <;> rfl

theorem keeps_cons {rule : Rule} {family : List Rule}
    (h : Keeps (rule.find? edition context) kind lexeme rest other)
    (hlater : Keeps (firstOf family edition context) kind lexeme rest other) :
    Keeps (firstOf (rule :: family) edition context) kind lexeme rest other := by
  rw [firstOf_cons]
  exact h.or hlater

theorem keeps_firstOf {family : List Rule}
    (h : ∀ rule ∈ family, Keeps (rule.find? edition context) kind lexeme rest other) :
    Keeps (firstOf family edition context) kind lexeme rest other := by
  induction family with
  | nil => exact keeps_nil
  | cons rule family ih =>
    have hlater := ih fun rule hmem => h rule (List.mem_cons_of_mem _ hmem)
    exact keeps_cons (h rule List.mem_cons_self) hlater

/-- A rule for something, and right after it the one for its opening alone. -/
theorem keeps_orFail {rule failing : Rule} {later : List Rule} {diagnosis : Diagnosis}
    (happlies : failing.applies edition context = rule.applies edition context)
    (hfail : failing.action = .fail diagnosis)
    (hnone : ∀ text, failing.matcher text = none → rule.matcher text = none)
    (habsent : failing.matcher (lexeme ++ rest) = none → failing.matcher (lexeme ++ other) = none)
    (hagain : rule.matcher (lexeme ++ rest) = some (lexeme, rest) →
      rule.matcher (lexeme ++ other) = some (lexeme, other))
    (hlater : Keeps (firstOf later edition context) kind lexeme rest other) :
    Keeps (firstOf (rule :: failing :: later) edition context) kind lexeme rest other := by
  have hpair : ∀ text, (rule.find? edition context text).or (failing.find? edition context text) =
      none ↔ (rule.applies edition context = true → failing.matcher text = none) := by
    intro text
    simp only [Rule.find?, happlies]
    by_cases h : rule.applies edition context = true
    · simp only [h, if_true, Option.or_eq_none_iff, Option.map_eq_none_iff, forall_const]
      exact ⟨fun hboth => hboth.2, fun hopening => ⟨hnone _ hopening, hopening⟩⟩
    · simp only [if_neg h, Option.or_none]
      exact iff_of_true trivial fun h' => absurd h' h
  rw [firstOf_cons, firstOf_cons]
  simp only [← Option.or_assoc]
  refine Keeps.or ⟨?_, ?_⟩ hlater
  · intro h
    rw [hpair] at h ⊢
    exact fun ha => habsent (h ha)
  · intro h
    rw [Option.or_eq_some_iff] at h
    rcases h with h | ⟨-, h⟩
    · rw [Rule.find?_eq_some_iff] at h
      have hfound : rule.find? edition context (lexeme ++ other) =
          some { action := .emit kind, lexeme, rest := other } :=
        Rule.find?_eq_some_iff.2 ⟨h.1, h.2.1, hagain h.2.2⟩
      rw [hfound, Option.some_or]
    · obtain ⟨-, haction, -⟩ := Rule.find?_eq_some_iff.1 h
      rw [hfail] at haction
      cases haction

/-- No character but a CR or an LF opens a line end, and one of these always does. -/
theorem lineEnd_eq_none_iff {text : Text} :
    oneOf [['\r', '\n'], ['\n'], ['\r']] text = none ↔ text.head?.any isLineTerminator = false := by
  simp only [oneOf, List.findSome?_eq_none_iff, List.forall_mem_cons, List.not_mem_nil,
    false_imp_iff, implies_true, and_true, exactly_eq_none_iff]
  cases text with
  | nil => simp
  | cons c text =>
    simp only [List.cons_prefix_cons, List.nil_prefix, and_true, List.head?_cons, Option.any_some,
      isLineTerminator, Bool.or_eq_false_iff, beq_eq_false_iff_ne, eq_comm (b := c)]
    exact ⟨fun h => ⟨h.2.1, h.2.2⟩, fun h => ⟨fun hpair => h.2 hpair.1, h.1, h.2⟩⟩

/-- A CR is found again where no LF comes to stand behind it. -/
theorem lineEnd_again (hapart : ¬ SplitsPair lexeme other)
    (h : oneOf [['\r', '\n'], ['\n'], ['\r']] (lexeme ++ rest) = some (lexeme, rest)) :
    oneOf [['\r', '\n'], ['\n'], ['\r']] (lexeme ++ other) = some (lexeme, other) := by
  obtain ⟨spelling, hmem, hfound⟩ := List.exists_of_findSome?_eq_some h
  obtain ⟨rfl, -⟩ := exactly_eq_some_iff.1 hfound
  simp only [List.mem_cons, List.not_mem_nil, or_false] at hmem
  rcases hmem with rfl | rfl | rfl
  · rfl
  · rfl
  · have hpair : ¬ ['\r', '\n'] <+: '\r' :: other := by
      rintro ⟨tail, htail⟩
      exact hapart ⟨rfl, by rw [← (List.cons.inj htail).2]; rfl⟩
    rw [List.singleton_append, oneOf, List.findSome?_cons, exactly_eq_none_iff.2 hpair]
    rfl

theorem keeps_blankRules (hne : lexeme ≠ []) (hapart : ¬ SplitsPair lexeme other) :
    Keeps (firstOf blankRules edition context) kind lexeme rest other := by
  refine keeps_cons (keeps_find? (fun h => ?_) fun _ h => selfEnding_one isBlank other h)
    (keeps_cons (keeps_find? (fun h => ?_) fun _ => lineEnd_again hapart) keeps_nil)
  · rw [one_eq_none_iff] at h ⊢
    rwa [head?_append_congr hne other rest]
  · rw [lineEnd_eq_none_iff] at h ⊢
    rwa [head?_append_congr hne other rest]

theorem keeps_of_again {family : List Rule} (h : Shortens other rest)
    (hfamily : ∀ rule ∈ family, rule.matcher.FoundAgain ∧ rule.matcher.StaysAbsent) :
    Keeps (firstOf family edition context) kind lexeme rest other :=
  keeps_firstOf fun rule hmem =>
    keeps_find? ((hfamily rule hmem).2 (h.append lexeme)) fun _ => (hfamily rule hmem).1 h

theorem keeps_operatorRules (h : Shortens other rest) :
    Keeps (firstOf operatorRules edition context) kind lexeme rest other := by
  have hgaps : ∀ spellings : List Text, (spellings.all fun spelling => spelling.all (!isGap ·)) = true →
      ∀ spelling ∈ spellings, ∀ c ∈ spelling, isGap c = false := by
    intro spellings hall spelling hmem c hc
    have hspelling := List.all_eq_true.1 (List.all_eq_true.1 hall spelling hmem) c hc
    simpa using hspelling
  have hboth : ∀ spellings : List Text, (spellings.all fun spelling => spelling.all (!isGap ·)) = true →
      (oneOf spellings).FoundAgain ∧ (oneOf spellings).StaysAbsent :=
    fun spellings hall =>
      ⟨foundAgain_oneOf (hgaps spellings hall), staysAbsent_oneOf (hgaps spellings hall)⟩
  apply keeps_of_again h
  simp only [operatorRules, List.forall_mem_cons, List.not_mem_nil, false_imp_iff, implies_true,
    and_true]
  exact ⟨hboth _ (by decide +kernel), hboth _ (by decide +kernel), hboth _ (by decide +kernel)⟩

theorem keeps_punctuationRules (h : Shortens other rest) :
    Keeps (firstOf punctuationRules edition context) kind lexeme rest other := by
  have hboth : ∀ c, isGap c = false → (exactly [c]).FoundAgain ∧ (exactly [c]).StaysAbsent :=
    fun c hc => ⟨(selfEnding_exactly _).foundAgain, staysAbsent_exactly (by simpa using hc)⟩
  apply keeps_of_again h
  simp only [punctuationRules, List.forall_mem_cons, List.not_mem_nil, false_imp_iff, implies_true,
    and_true]
  refine ⟨?_, ?_, ?_, ?_, ?_, ?_, ?_, ?_, ?_, ?_⟩ <;> exact hboth _ (by decide)

theorem keeps_quotationRules (h : Shortens other rest) :
    Keeps (firstOf quotationRules edition context) kind lexeme rest other := by
  have hopening : Quotation.unfinished.StaysAbsent :=
    (staysAbsent_toLineEnd (by decide)).orElse (staysAbsent_toLineEnd (by decide))
  refine keeps_orFail rfl rfl (fun text hnone => ?_) (hopening (h.append lexeme))
    (Quotation.selfEnding_string other) keeps_nil
  cases text with
  | nil => rfl
  | cons c rest =>
    refine if_neg fun hquote => ?_
    rw [Bool.or_eq_true, decide_eq_true_eq, decide_eq_true_eq] at hquote
    rcases hquote with rfl | rfl
    · cases hnone
    · cases hnone

theorem toLineEnd_again {opening : Text} (hopening : ∀ c ∈ opening, isLineBreak c = false)
    (hends : rest.head?.all isLineBreak = true → other.head?.all isLineBreak = true)
    (h : toLineEnd opening (lexeme ++ rest) = some (lexeme, rest)) :
    toLineEnd opening (lexeme ++ other) = some (lexeme, other) := by
  have hopens := prefix_of_toLineEnd hopening h
  obtain ⟨-, hsplit⟩ := Option.ite_none_right_eq_some.1 h
  obtain ⟨hinside, hstop⟩ := Text.run_eq_iff.1 (Option.some.inj hsplit)
  have hbreak : ∀ text : Text, (text.head?.any fun c => !isLineBreak c) = false ↔
      text.head?.all isLineBreak = true := by
    intro text
    cases text <;> simp
  have hagain : opening.isPrefixOf (lexeme ++ other) = true :=
    List.isPrefixOf_iff_prefix.2 (hopens.trans (List.prefix_append _ _))
  rw [toLineEnd, if_pos hagain, Text.splitLine,
    Text.run_eq_iff.2 ⟨hinside, (hbreak _).2 (hends ((hbreak _).1 hstop))⟩]

theorem keeps_commentRules (h : Exchangeable kind lexeme rest other) :
    Keeps (firstOf commentRules edition context) kind lexeme rest other := by
  have hblock : ∀ text, Comment.unfinished text = none → Comment.block text = none := by
    intro text hnone
    unfold Comment.block
    split
    · cases hnone
    · rfl
  have hline : ∀ opening : Text,
      (∀ c ∈ opening, isGap c = false ∧ isLineBreak c = false) →
      ¬ opening <+: ['/', '*'] → ¬ ['/', '*'] <+: opening → ∀ guard since,
      Keeps (Rule.find? { since, guard, matcher := toLineEnd opening, action := .emit .comment }
        edition context) kind lexeme rest other := by
    intro opening hchars hshorter hlonger guard since
    refine keeps_find? (staysAbsent_toLineEnd (fun c hc => (hchars c hc).1)
      (h.shortens.append lexeme)) fun haction hfound => ?_
    have hkind : kind = .comment := (Action.emit.inj haction).symm
    have hbreak := fun c hc => (hchars c hc).2
    exact toLineEnd_again hbreak
      (h.lineEnds hkind (not_block_of_toLineEnd hbreak hshorter hlonger hfound)) hfound
  refine keeps_cons (hline _ (by decide) (by decide) (by decide) _ _) (keeps_orFail rfl rfl hblock ?_
    (Comment.selfEnding_block other) (keeps_cons (hline _ (by decide) (by decide) (by decide) _ _)
      (keeps_cons (hline _ (by decide) (by decide) (by decide) _ _) keeps_nil)))
  exact staysAbsent_toLineEnd (by decide) (h.shortens.append lexeme)

theorem keeps_regExpRules (h : Exchangeable kind lexeme rest other) :
    Keeps (firstOf regExpRules edition context) kind lexeme rest other := by
  refine keeps_orFail rfl rfl (fun text hnone => ?_)
    (staysAbsent_toLineEnd (by decide) (h.shortens.append lexeme))
    (fun hfound => RegExp.regExp_again hfound h.shortens h.brackets) keeps_nil
  apply RegExp.regExp_of_other
  intro hhead
  obtain ⟨tail, rfl⟩ := List.head?_eq_some_iff.1 hhead
  cases hnone

theorem keeps_pieceRules (guard : Context → Bool) {opening : Char} (hopening : isGap opening = false)
    (kindOf : Template.Stop → TokenKind) (construct : Unfinished) (h : Shortens other rest) :
    Keeps (firstOf (pieceRules guard opening kindOf construct) edition context) kind lexeme rest
      other := by
  by_cases happlies : (edition.includes .es2015 && guard context) = true
  · constructor
    · intro hnone
      apply firstOf_pieceRules_other
      intro hhead
      obtain ⟨tail, htail⟩ := List.head?_eq_some_iff.1 ((h.append lexeme).head? hopening hhead)
      rw [htail] at hnone
      cases hbody : Template.body tail with
      | none =>
        rw [firstOf_pieceRules_open guard happlies hbody] at hnone
        cases hnone
      | some found =>
        rw [firstOf_pieceRules_body guard happlies hbody] at hnone
        cases hnone
    · intro hemit
      by_cases hhead : (lexeme ++ rest).head? = some opening
      · obtain ⟨tail, htail⟩ := List.head?_eq_some_iff.1 hhead
        rw [htail] at hemit
        cases hbody : Template.body tail with
        | none =>
          rw [firstOf_pieceRules_open guard happlies hbody] at hemit
          cases hemit
        | some found =>
          rw [firstOf_pieceRules_body guard happlies hbody] at hemit
          cases hemit
          exact firstOf_pieceRules_body guard happlies (Template.body_again other hbody)
      · rw [firstOf_pieceRules_other hhead] at hemit
        cases hemit
  · exact ⟨fun _ => firstOf_pieceRules_skip happlies _,
      fun hemit => (by rw [firstOf_pieceRules_skip happlies] at hemit; cases hemit)⟩

theorem keeps_templateRules (h : Shortens other rest) :
    Keeps (firstOf templateRules edition context) kind lexeme rest other := by
  rw [templateRules_eq, funext (firstOf_append _ _ edition context)]
  exact (keeps_pieceRules _ (by decide) _ _ h).or (keeps_pieceRules _ (by decide) _ _ h)

theorem keeps_numeralRules (hes5 : edition.includes .es5 = true) (h : Shortens other rest) :
    Keeps (firstOf numeralRules edition context) kind lexeme rest other := by
  constructor
  · intro hnone
    rw [Numeral.firstOf_numeralRules_eq_none_iff hes5] at hnone ⊢
    exact Numeral.staysAbsent_mantissa (h.append lexeme) hnone
  · intro hemit
    by_cases hannounces : Numeral.Announces edition (lexeme ++ rest)
    · obtain ⟨radix, hsince, mark, tail, htext, hmark⟩ := hannounces
      rw [htext, Numeral.firstOf_announced hes5 hsince hmark, Option.some.injEq] at hemit
      obtain ⟨found, rfl, hagain⟩ := Numeral.judgeAnnounced_again h hemit
      rw [← hagain]
      exact Numeral.firstOf_announced hes5 hsince hmark _
    · have hother : ¬ Numeral.Announces edition (lexeme ++ other) :=
        fun hother => hannounces (Numeral.announces_of_shortens (h.append lexeme) hother)
      cases hzero : Numeral.leadingZero (lexeme ++ rest) with
      | some found =>
        obtain ⟨found, after⟩ := found
        rw [Numeral.firstOf_leadingZero hes5 hzero, Option.some.injEq] at hemit
        obtain ⟨rfl, rfl, hagain⟩ := Numeral.judge_again h hemit
        rw [← hagain]
        exact Numeral.firstOf_leadingZero hes5 (Numeral.foundAgain_leadingZero h hzero)
      | none =>
        have hzero' := Numeral.staysAbsent_leadingZero (h.append lexeme) hzero
        rw [Numeral.firstOf_decimal hes5 hannounces hzero] at hemit
        obtain ⟨⟨found, after⟩, hmantissa, hjudge⟩ := Option.map_eq_some_iff.1 hemit
        obtain ⟨later, hagain, hjudge'⟩ := Numeral.judgeDecimal_again h hmantissa hjudge
        rw [Numeral.firstOf_decimal hes5 hother hzero', hagain, Option.map_some, hjudge']

/-- The rules for words answer where a name begins: the last of them is the one for names. -/
theorem firstOf_wordRules_eq_none_iff (hes5 : edition.includes .es5 = true) {text : Text} :
    firstOf wordRules edition context text = none ↔ Name.identifier text = none := by
  simp only [firstOf_eq_none_iff, wordRules, List.forall_mem_cons, List.not_mem_nil, false_imp_iff,
    implies_true, and_true, Rule.applies, hes5, Bool.and_true, Bool.true_and, forall_const]
  constructor
  · exact fun h => h.2.2.2
  · exact fun h => ⟨Name.wordIn_eq_none (by decide +kernel) h,
      fun _ => Name.wordIn_eq_none (by decide +kernel) h,
      fun _ => Name.wordIn_eq_none (by decide +kernel) h, h⟩

theorem keeps_wordRules (hes5 : edition.includes .es5 = true) (h : Shortens other rest) :
    Keeps (firstOf wordRules edition context) kind lexeme rest other := by
  constructor
  · intro hnone
    rw [firstOf_wordRules_eq_none_iff hes5] at hnone ⊢
    exact Name.staysAbsent_identifier (h.append lexeme) hnone
  · intro hemit
    -- whichever rule answers, the name ends before the rest
    have hhead : rest.head?.any isNamePart = false := by
      obtain ⟨rule, hmem, -, -, hmatch⟩ := exists_of_firstOf hemit
      simp only [wordRules, List.mem_cons, List.not_mem_nil, or_false] at hmem
      rcases hmem with rfl | rfl | rfl | rfl
      · exact (Text.run_eq_iff.1 (Name.wordIn_eq_some_iff.1 hmatch).2).2
      · exact (Text.run_eq_iff.1 (Name.wordIn_eq_some_iff.1 hmatch).2).2
      · exact (Text.run_eq_iff.1 (Name.wordIn_eq_some_iff.1 hmatch).2).2
      · exact Name.head?_of_identifier hmatch
    have hword : ∀ (words : List Text) since guard action,
        Keeps (Rule.find? { since, guard, matcher := Name.wordIn words, action } edition context) kind
          lexeme rest other :=
      fun words _ _ _ => keeps_find? (Name.wordIn_absent h hhead)
        fun _ => Name.foundAgain_wordIn words h
    have hname := @keeps_find? edition context kind lexeme rest other
      { matcher := Name.identifier, action := .emit .identifier }
      (Name.staysAbsent_identifier (h.append lexeme)) fun _ => Name.foundAgain_identifier h
    exact (keeps_cons (hword _ _ _ _) (keeps_cons (hword _ _ _ _) (keeps_cons (hword _ _ _ _)
      (keeps_cons hname keeps_nil)))).emitted hemit

/-- The token that the rules emit in front of a text, they emit in front of every text that can stand
there in its place. -/
theorem select_exchange (hes5 : edition.includes .es5 = true)
    (h : Exchangeable kind lexeme rest other)
    (hselect : select edition context (lexeme ++ rest) = some { action := .emit kind, lexeme, rest }) :
    select edition context (lexeme ++ other) =
      some { action := .emit kind, lexeme, rest := other } := by
  have hne : lexeme ≠ [] := (append_of_select hselect).1
  have hkeeps : Keeps (select edition context) kind lexeme rest other := by
    rw [funext (select_eq edition context)]
    exact (keeps_blankRules hne h.apart).or ((keeps_numeralRules hes5 h.shortens).or
      ((keeps_quotationRules h.shortens).or ((keeps_templateRules h.shortens).or
        ((keeps_wordRules hes5 h.shortens).or ((keeps_commentRules h).or ((keeps_regExpRules h).or
          ((keeps_operatorRules h.shortens).or (keeps_punctuationRules h.shortens))))))))
  exact hkeeps.emitted hselect

end EcmaLex
