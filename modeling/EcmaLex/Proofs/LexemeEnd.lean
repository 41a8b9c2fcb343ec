import EcmaLex.Proofs.Lines
import EcmaLex.Proofs.OneLine

/-!
# How lexemes end

Strings, pieces of templates, block comments and regular expressions end in a mark of their own, a name
in a character of names. So no lexeme ends between a CR and the LF behind it, `not_splitsPair_of_select`,
and none but a comment that goes to the end of its line ends in a backslash,
`getLast?_ne_backslash_of_select`.
-/

namespace EcmaLex

namespace Matcher

/-- Every lexeme ends in a character of the class. -/
def EndsIn (matcher : Matcher) (p : Char → Bool) : Prop :=
  ∀ ⦃text lexeme rest : Text⦄, matcher text = some (lexeme, rest) →
    ∃ c, lexeme.getLast? = some c ∧ p c = true

/-- No lexeme ends between a CR and an LF. -/
def KeepsPairs (matcher : Matcher) : Prop :=
  ∀ ⦃text lexeme rest : Text⦄, matcher text = some (lexeme, rest) → ¬ SplitsPair lexeme rest

theorem Within.endsIn {matcher : Matcher} {p : Char → Bool} (h : matcher.Within p)
    (lawful : matcher.Lawful) : matcher.EndsIn p := by
  intro text lexeme rest hmatch
  obtain ⟨hne, -⟩ := lawful hmatch
  exact ⟨lexeme.getLast hne, List.getLast?_eq_getLast_of_ne_nil hne, h hmatch _ (List.getLast_mem hne)⟩

theorem Within.keepsPairs {matcher : Matcher} {p : Char → Bool} (h : matcher.Within p)
    (hcr : p '\r' = false) : matcher.KeepsPairs := by
  intro text lexeme rest hmatch hpair
  have hmem := h hmatch '\r' (List.mem_of_getLast? hpair.1)
  rw [hcr] at hmem
  cases hmem

/-- A lexeme that ends in another character keeps a CR and an LF together. -/
theorem EndsIn.keepsPairs {matcher : Matcher} {p : Char → Bool} (h : matcher.EndsIn p)
    (hcr : p '\r' = false) : matcher.KeepsPairs := by
  intro text lexeme rest hmatch hpair
  obtain ⟨c, hlast, hc⟩ := h hmatch
  rw [hpair.1] at hlast
  rw [← Option.some.inj hlast, hcr] at hc
  cases hc

theorem getLast?_extend {read tail : Text} {c : Char} (h : tail.getLast? = some c) :
    (read ++ tail).getLast? = some c := by
  rw [List.getLast?_append, h, Option.some_or]

/-- What has been read before does not change the end of what is read after it. -/
theorem endsIn_extend {read tail : Text} {p : Char → Bool}
    (h : ∃ c, tail.getLast? = some c ∧ p c = true) :
    ∃ c, (read ++ tail).getLast? = some c ∧ p c = true :=
  h.imp fun _ hc => ⟨getLast?_extend hc.1, hc.2⟩

end Matcher

open Matcher

theorem Comment.endsIn_blockBody : blockBody.EndsIn (· == '/') := by
  intro text lexeme rest h
  fun_induction blockBody text generalizing lexeme with
  | case1 => cases h
  | case2 =>
    obtain ⟨rfl, -⟩ := Prod.mk.inj (Option.some.inj h)
    exact ⟨'/', rfl, rfl⟩
  | case3 c tail _ ih =>
    obtain ⟨found, hfound, rfl⟩ := map_extend_eq_some_iff.1 h
    exact endsIn_extend (ih hfound)

theorem Comment.endsIn_block : block.EndsIn (· == '/') := by
  intro text lexeme rest h
  unfold block at h
  split at h
  · obtain ⟨found, hfound, rfl⟩ := map_extend_eq_some_iff.1 h
    exact endsIn_extend (endsIn_blockBody hfound)
  · cases h

theorem Quotation.endsIn_body (quote : Char) : (body quote).EndsIn (· == quote) := by
  intro text lexeme rest h
  fun_induction body quote text generalizing lexeme with
  | case1 => cases h
  | case2 => cases h
  | case3 tail ih =>
    obtain ⟨found, hfound, rfl⟩ := map_extend_eq_some_iff.1 h
    exact endsIn_extend (ih hfound)
  | case4 c tail _ ih =>
    obtain ⟨found, hfound, rfl⟩ := map_extend_eq_some_iff.1 h
    exact endsIn_extend (ih hfound)
  | case5 =>
    obtain ⟨rfl, -⟩ := Prod.mk.inj (Option.some.inj h)
    exact ⟨quote, rfl, beq_self_eq_true quote⟩
  | case6 => cases h
  | case7 c tail _ _ _ _ _ ih =>
    obtain ⟨found, hfound, rfl⟩ := map_extend_eq_some_iff.1 h
    exact endsIn_extend (ih hfound)

theorem Quotation.endsIn_string : string.EndsIn opensQuotation := by
  intro text lexeme rest h
  unfold string at h
  split at h
  · cases h
  · next quote tail =>
    obtain ⟨hquote, hmap⟩ := Option.ite_none_right_eq_some.1 h
    obtain ⟨found, hfound, rfl⟩ := map_extend_eq_some_iff.1 hmap
    obtain ⟨c, hlast, hc⟩ := endsIn_body quote hfound
    obtain rfl : c = quote := beq_iff_eq.1 hc
    exact ⟨c, getLast?_extend hlast, by simpa [opensQuotation] using hquote⟩

/-- A piece of a template ends in a backquote or in a left brace. -/
def Template.closesPiece (c : Char) : Bool :=
  c == backquote || c == '{'

theorem Template.endsIn_body {stop : Stop} {text lexeme rest : Text}
    (h : body text = some (stop, lexeme, rest)) :
    ∃ c, lexeme.getLast? = some c ∧ closesPiece c = true := by
  fun_induction body text generalizing lexeme with
  | case1 => cases h
  | case2 => cases h
  | case3 c tail ih =>
    obtain ⟨⟨found, piece, after⟩, hfound, heq⟩ := Option.map_eq_some_iff.1 h
    simp only [extend_mk, Prod.mk.injEq] at heq
    obtain ⟨rfl, rfl, rfl⟩ := heq
    exact endsIn_extend (ih hfound)
  | case4 =>
    simp only [Option.some.injEq, Prod.mk.injEq] at h
    obtain ⟨-, rfl, -⟩ := h
    exact ⟨'{', rfl, rfl⟩
  | case5 =>
    simp only [Option.some.injEq, Prod.mk.injEq] at h
    obtain ⟨-, rfl, -⟩ := h
    exact ⟨backquote, rfl, rfl⟩
  | case6 c tail _ _ _ _ ih =>
    obtain ⟨⟨found, piece, after⟩, hfound, heq⟩ := Option.map_eq_some_iff.1 h
    simp only [extend_mk, Prod.mk.injEq] at heq
    obtain ⟨rfl, rfl, rfl⟩ := heq
    exact endsIn_extend (ih hfound)

theorem Template.endsIn_piece (opening : Char) (stop : Stop) :
    (piece opening stop).EndsIn closesPiece := by
  intro text lexeme rest h
  unfold piece at h
  split at h
  · cases h
  · split at h
    · split at h
      · next hbody =>
        simp only [Option.ite_none_right_eq_some, Option.some.injEq, Prod.mk.injEq] at h
        obtain ⟨-, rfl, rfl⟩ := h
        exact @endsIn_extend [_] _ _ (endsIn_body hbody)
      · cases h
    · cases h

namespace Name

theorem endsIn_nameUnit {p : Char → Bool} (hp : ∀ c, p c = true → isNamePart c = true) :
    (nameUnit p).EndsIn isNamePart := by
  intro text lexeme rest h
  rcases cases_of_nameUnit h with ⟨c, rfl, hc⟩ | ⟨high, low, c, rfl, hescaped, -⟩
  · exact ⟨c, rfl, hp c hc⟩
  · exact ⟨low, rfl, (isNamePart_of_escaped hescaped).2⟩

theorem endsIn_continuation (text : Text) (hne : (continuation text).1 ≠ []) :
    ∃ c, (continuation text).1.getLast? = some c ∧ isNamePart c = true := by
  fun_induction continuation text with
  | case1 text unit rest h ih =>
    by_cases hlater : (continuation rest).1 = []
    · obtain ⟨c, hlast, hc⟩ := endsIn_nameUnit (fun _ => id) h
      exact ⟨c, by rw [extend, hlater, List.append_nil, hlast], hc⟩
    · exact endsIn_extend (ih hlater)
  | case2 => exact absurd rfl hne

theorem endsIn_identifier : identifier.EndsIn isNamePart := by
  intro text lexeme rest h
  unfold identifier at h
  split at h
  · next unit tail hunit =>
    obtain ⟨rfl, rfl⟩ := Prod.mk.inj (Option.some.inj h)
    by_cases hlater : (continuation tail).1 = []
    · obtain ⟨c, hlast, hc⟩ := endsIn_nameUnit (fun _ => isNamePart_of_isNameStart) hunit
      exact ⟨c, by rw [hlater, List.append_nil, hlast], hc⟩
    · exact endsIn_extend (endsIn_continuation tail hlater)
  · cases h

end Name

namespace RegExp

theorem endsIn_body : EndsIn body (· == '/') := by
  intro text lexeme rest h
  fun_induction body text generalizing lexeme with
  | case1 => cases h
  | case2 => cases h
  | case3 => cases h
  | case4 c tail _ ih =>
    obtain ⟨found, hfound, rfl⟩ := map_extend_eq_some_iff.1 h
    exact endsIn_extend (ih hfound)
  | case5 tail members after _ ih =>
    obtain ⟨found, hfound, rfl⟩ := map_extend_eq_some_iff.1 h
    exact endsIn_extend (ih hfound)
  | case6 tail _ ih =>
    obtain ⟨found, hfound, rfl⟩ := map_extend_eq_some_iff.1 h
    exact endsIn_extend (ih hfound)
  | case7 =>
    obtain ⟨rfl, -⟩ := Prod.mk.inj (Option.some.inj h)
    exact ⟨'/', rfl, rfl⟩
  | case8 => cases h
  | case9 c tail _ _ _ _ _ ih =>
    obtain ⟨found, hfound, rfl⟩ := map_extend_eq_some_iff.1 h
    exact endsIn_extend (ih hfound)

/-- A regular expression ends in its closing slash or in a flag. -/
theorem endsIn_regExp : regExp.EndsIn fun c => c == '/' || c.isAlpha := by
  intro text lexeme rest h
  unfold regExp at h
  split at h
  · cases h
  · split at h
    · next found after hbody =>
      obtain ⟨rfl, -⟩ := Prod.mk.inj (Option.some.inj h)
      by_cases hflags : after.takeWhile Char.isAlpha = []
      · obtain ⟨c, hlast, hc⟩ := endsIn_body hbody
        refine ⟨c, ?_, Bool.or_eq_true_iff.2 (.inl hc)⟩
        show ('/' :: found ++ after.takeWhile Char.isAlpha).getLast? = some c
        rw [hflags, List.append_nil]
        exact @getLast?_extend ['/'] _ _ hlast
      · have hlast := List.getLast_mem hflags
        exact ⟨_, getLast?_extend (List.getLast?_eq_getLast_of_ne_nil hflags),
          Bool.or_eq_true_iff.2 (.inr (within_takeWhile _ _ _ hlast))⟩
    · cases h
  · cases h

end RegExp

/-- The longest spelling of a line end comes first. -/
theorem keepsPairs_lineEnd : (oneOf [['\r', '\n'], ['\n'], ['\r']]).KeepsPairs := by
  intro text lexeme rest h hpair
  obtain ⟨spelling, hmem, hfound⟩ := List.exists_of_findSome?_eq_some h
  obtain ⟨rfl, rfl⟩ := exactly_eq_some_iff.1 hfound
  obtain ⟨hcr, hlf⟩ := hpair
  simp only [List.mem_cons, List.not_mem_nil, or_false] at hmem
  rcases hmem with rfl | rfl | rfl
  · cases hcr
  · cases hcr
  · obtain ⟨tail, rfl⟩ := List.head?_eq_some_iff.1 hlf
    cases h

/-- No matcher of the language ends a lexeme between a CR and an LF. -/
theorem keepsPairs_of_mem_rules : ∀ rule ∈ rules, rule.matcher.KeepsPairs := by
  have hopening : ∀ opening, (toLineEnd opening).KeepsPairs :=
    fun opening => (oneLine_toLineEnd opening).keepsPairs (by decide)
  have hpiece : ∀ opening stop, (Template.piece opening stop).KeepsPairs :=
    fun opening stop => (Template.endsIn_piece opening stop).keepsPairs (by decide)
  refine forall_mem_rules.2 ⟨?blank, fun rule h => (within_of_mem_numeralRules rule h).keepsPairs ?_,
    ?quotation, ?template, fun rule h => (oneLine_of_mem_wordRules rule h).keepsPairs ?_, ?comment,
    fun rule h => (oneLine_of_mem_regExpRules rule h).keepsPairs ?_,
    fun rule h => (within_of_mem_operatorRules rule h).keepsPairs ?_,
    fun rule h => (within_of_mem_punctuationRules rule h).keepsPairs ?_⟩
  case blank =>
    simp only [blankRules, List.forall_mem_cons, List.not_mem_nil, false_imp_iff, implies_true,
      and_true]
    exact ⟨(within_one _).keepsPairs (by decide), keepsPairs_lineEnd⟩
  case quotation =>
    simp only [quotationRules, List.forall_mem_cons, List.not_mem_nil, false_imp_iff, implies_true,
      and_true]
    exact ⟨Quotation.endsIn_string.keepsPairs (by decide),
      ((oneLine_toLineEnd _).orElse (oneLine_toLineEnd _)).keepsPairs (by decide)⟩
  case template =>
    simp only [templateRules, List.forall_mem_cons, List.not_mem_nil, false_imp_iff, implies_true,
      and_true]
    exact ⟨hpiece _ _, hpiece _ _, hopening _, hpiece _ _, hpiece _ _, hopening _⟩
  case comment =>
    simp only [commentRules, List.forall_mem_cons, List.not_mem_nil, false_imp_iff, implies_true,
      and_true]
    exact ⟨hopening _, Comment.endsIn_block.keepsPairs (by decide), hopening _, hopening _,
      hopening _⟩
  all_goals decide

theorem not_splitsPair_of_select {edition : Edition} {context : Context} {text : Text}
    {found : Selection} (h : select edition context text = some found) :
    ¬ SplitsPair found.lexeme found.rest := by
  obtain ⟨rule, hmem, hfind⟩ := List.exists_of_findSome?_eq_some h
  exact keepsPairs_of_mem_rules rule hmem (Rule.find?_eq_some_iff.1 hfind).2.2

theorem prefix_of_toLineEnd {opening text lexeme rest : Text}
    (hopening : ∀ c ∈ opening, isLineBreak c = false)
    (h : toLineEnd opening text = some (lexeme, rest)) : opening <+: lexeme := by
  obtain ⟨hopens, hsplit⟩ := Option.ite_none_right_eq_some.1 h
  obtain ⟨rfl, -⟩ := Prod.mk.inj (Option.some.inj hsplit)
  obtain ⟨tail, rfl⟩ := List.isPrefixOf_iff_prefix.1 hopens
  refine ⟨tail.takeWhile fun c => !isLineBreak c, (List.takeWhile_append_of_pos fun c hc => ?_).symm⟩
  rw [hopening c hc]
  rfl

/-- A comment that goes to the end of its line is no block comment. -/
theorem not_block_of_toLineEnd {opening text lexeme rest : Text}
    (hopening : ∀ c ∈ opening, isLineBreak c = false) (hshorter : ¬ opening <+: ['/', '*'])
    (hlonger : ¬ ['/', '*'] <+: opening) (h : toLineEnd opening text = some (lexeme, rest)) :
    ¬ ['/', '*'] <+: lexeme := fun hblock =>
  (List.prefix_or_prefix_of_prefix (prefix_of_toLineEnd hopening h) hblock).elim hshorter hlonger

/-- What the rule emits does not end in a backslash, unless it is a comment that goes to the end of its
line. -/
def Rule.EndsPlain (rule : Rule) : Prop :=
  ∀ ⦃kind : TokenKind⦄ ⦃text lexeme rest : Text⦄, rule.action = .emit kind →
    rule.matcher text = some (lexeme, rest) → (kind = .comment → ['/', '*'] <+: lexeme) →
      lexeme.getLast? ≠ some '\\'

theorem endsPlain_of_endsIn {rule : Rule} {p : Char → Bool} (h : rule.matcher.EndsIn p)
    (hslash : p '\\' = false) : rule.EndsPlain := by
  intro kind text lexeme rest _ hmatch _ hlast
  obtain ⟨c, hc, hp⟩ := h hmatch
  rw [hlast] at hc
  rw [← Option.some.inj hc, hslash] at hp
  cases hp

theorem endsPlain_of_fail {rule : Rule} {diagnosis : Diagnosis} (h : rule.action = .fail diagnosis) :
    rule.EndsPlain := by
  intro kind text lexeme rest haction
  rw [h] at haction
  cases haction

theorem endsPlain_lineComment {opening : Text} (hopening : ∀ c ∈ opening, isLineBreak c = false)
    (hshorter : ¬ opening <+: ['/', '*']) (hlonger : ¬ ['/', '*'] <+: opening) (since : Edition)
    (guard : Context → Bool) :
    Rule.EndsPlain { since, guard, matcher := toLineEnd opening, action := .emit .comment } := by
  intro kind text lexeme rest haction hmatch hblock
  exact absurd (hblock (Action.emit.inj haction).symm)
    (not_block_of_toLineEnd hopening hshorter hlonger hmatch)

theorem endsPlain_of_mem_rules : ∀ rule ∈ rules, rule.EndsPlain := by
  have hwithin : ∀ {family : List Rule} {p : Char → Bool}, p '\\' = false →
      (∀ rule ∈ family, rule.matcher.Within p) → (∀ rule ∈ family, rule.matcher.Lawful) →
        ∀ rule ∈ family, rule.EndsPlain :=
    fun hp h hlawful rule hmem =>
      endsPlain_of_endsIn ((h rule hmem).endsIn (hlawful rule hmem)) hp
  refine forall_mem_rules.2 ⟨?blank,
    hwithin (by decide) within_of_mem_numeralRules lawful_of_mem_numeralRules, ?quotation,
    ?template, ?word, ?comment, ?regExp,
    hwithin (by decide) within_of_mem_operatorRules lawful_of_mem_operatorRules,
    hwithin (by decide) within_of_mem_punctuationRules lawful_of_mem_punctuationRules⟩
  case blank =>
    simp only [blankRules, List.forall_mem_cons, List.not_mem_nil, false_imp_iff, implies_true,
      and_true]
    have hlineEnd : (oneOf [['\r', '\n'], ['\n'], ['\r']]).Within isLineTerminator :=
      within_oneOf (by decide)
    exact ⟨endsPlain_of_endsIn ((within_one _).endsIn (lawful_one _)) (by decide),
      endsPlain_of_endsIn (hlineEnd.endsIn (lawful_oneOf (by decide))) (by decide)⟩
  case quotation =>
    simp only [quotationRules, List.forall_mem_cons, List.not_mem_nil, false_imp_iff, implies_true,
      and_true]
    exact ⟨endsPlain_of_endsIn Quotation.endsIn_string (by decide), endsPlain_of_fail rfl⟩
  case template =>
    have hpiece : ∀ guard opening stop kind, Rule.EndsPlain
        { since := .es2015, guard, matcher := Template.piece opening stop, action := .emit kind } :=
      fun _ opening stop _ => endsPlain_of_endsIn (Template.endsIn_piece opening stop) (by decide)
    simp only [templateRules, List.forall_mem_cons, List.not_mem_nil, false_imp_iff, implies_true,
      and_true]
    exact ⟨hpiece _ _ _ _, hpiece _ _ _ _, endsPlain_of_fail rfl, hpiece _ _ _ _, hpiece _ _ _ _,
      endsPlain_of_fail rfl⟩
  case word =>
    have hlawful := lawful_of_mem_wordRules
    simp only [wordRules, List.forall_mem_cons, List.not_mem_nil, false_imp_iff, implies_true,
      and_true] at hlawful ⊢
    obtain ⟨hliteral, hkeyword, hcontextual, -⟩ := hlawful
    exact ⟨endsPlain_of_endsIn ((Name.within_wordIn _).endsIn hliteral) (by decide),
      endsPlain_of_endsIn ((Name.within_wordIn _).endsIn hkeyword) (by decide),
      endsPlain_of_endsIn ((Name.within_wordIn _).endsIn hcontextual) (by decide),
      endsPlain_of_endsIn Name.endsIn_identifier (by decide)⟩
  case comment =>
    simp only [commentRules, List.forall_mem_cons, List.not_mem_nil, false_imp_iff, implies_true,
      and_true]
    exact ⟨endsPlain_lineComment (by decide) (by decide) (by decide) _ _,
      endsPlain_of_endsIn Comment.endsIn_block (by decide), endsPlain_of_fail rfl,
      endsPlain_lineComment (by decide) (by decide) (by decide) _ _,
      endsPlain_lineComment (by decide) (by decide) (by decide) _ _⟩
  case regExp =>
    simp only [regExpRules, List.forall_mem_cons, List.not_mem_nil, false_imp_iff, implies_true,
      and_true]
    exact ⟨endsPlain_of_endsIn RegExp.endsIn_regExp (by decide), endsPlain_of_fail rfl⟩

theorem getLast?_ne_backslash_of_select {edition : Edition} {context : Context} {text : Text}
    {kind : TokenKind} {lexeme rest : Text}
    (h : select edition context text = some { action := .emit kind, lexeme, rest })
    (hcomment : kind = .comment → ['/', '*'] <+: lexeme) : lexeme.getLast? ≠ some '\\' := by
  obtain ⟨rule, hmem, hfind⟩ := List.exists_of_findSome?_eq_some h
  obtain ⟨-, haction, hmatch⟩ := Rule.find?_eq_some_iff.1 hfind
  exact endsPlain_of_mem_rules rule hmem haction hmatch hcomment

end EcmaLex
