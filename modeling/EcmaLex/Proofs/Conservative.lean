import EcmaLex.Proofs.Introduced
import EcmaLex.Proofs.LexemeEnd
import EcmaLex.Proofs.Limit
import EcmaLex.Proofs.WordBoundary

/-!
# The edition of 2015 extends the oldest one

Every token that a rule of 2015 emits can be told by its kind and text, `TokenKind.isNovel`. Where what is
selected is not of these, the rules of 2015 have not taken part in selecting it, and the oldest edition selects
the same: `select_es5`. So a scan that gives none of these tokens is a scan of the oldest edition,
`tokenize_es5_of_es2015`.
-/

namespace EcmaLex

open Matcher

/-- Whether a token of this kind and text is of a form that the edition of 2015 brought. -/
def TokenKind.isNovel (kind : TokenKind) (text : Text) : Bool :=
  match kind with
  | .template | .templateStart | .templateMiddle | .templateEnd => true
  | .keyword => text ∈ ["await", "let", "static", "yield"].map String.toList
  | .comment => ["-->", "<!--"].any fun mark => mark.toList.isPrefixOf text
  | .operator => text ∈ ["=>", "..."].map String.toList
  | .literal => ["0b", "0B", "0o", "0O"].any fun mark => mark.toList.isPrefixOf text
  | _ => false

/-- A numeral in a base begins with a zero and a letter that announces the base. -/
theorem Numeral.exists_mark_of_inRadix {radix : Radix} {text lexeme rest : Text}
    (h : inRadix radix text = some (lexeme, rest)) :
    ∃ mark digits, lexeme = '0' :: mark :: digits ∧ radix.announcedBy mark = true := by
  unfold inRadix at h
  split at h
  · obtain ⟨hmark, hmap⟩ := Option.ite_none_right_eq_some.1 h
    obtain ⟨digits, -, rfl⟩ := map_extend_eq_some_iff.1 hmap
    exact ⟨_, digits, rfl, hmark⟩
  · cases h

theorem isNovel_of_inRadix {radix : Radix} (hradix : radix ≠ .hexadecimal) {text lexeme rest : Text}
    (h : (Numeral.inRadix radix).standalone isNamePart text = some (lexeme, rest)) :
    TokenKind.literal.isNovel lexeme = true := by
  obtain ⟨mark, digits, rfl, hmark⟩ := Numeral.exists_mark_of_inRadix (standalone_eq_some_iff.1 h).1
  cases radix <;> simp only [Radix.announcedBy, Bool.or_eq_true, beq_iff_eq] at hmark
  case hexadecimal => exact absurd rfl hradix
  all_goals rcases hmark with rfl | rfl <;> rfl

theorem isNovel_of_toLineEnd {mark : Text} (hplain : ∀ c ∈ mark, isLineBreak c = false)
    (hmem : mark ∈ ["-->", "<!--"].map String.toList) {text lexeme rest : Text}
    (h : toLineEnd mark text = some (lexeme, rest)) : TokenKind.comment.isNovel lexeme = true := by
  have hprefix := List.isPrefixOf_iff_prefix.2 (prefix_of_toLineEnd hplain h)
  obtain ⟨spelling, hspelling, rfl⟩ := List.mem_map.1 hmem
  exact List.any_eq_true.2 ⟨spelling, hspelling, hprefix⟩

/-- A rule of 2015 that emits gives its tokens a form of their own. -/
theorem isNovel_of_mem_rules : ∀ rule ∈ rules, rule.since = .es2015 →
    ∀ kind, rule.action = .emit kind → ∀ text lexeme rest,
      rule.matcher text = some (lexeme, rest) → kind.isNovel lexeme = true := by
  have hes5 : Edition.es5 ≠ .es2015 := by decide
  have hes2016 : Edition.es2016 ≠ .es2015 := by decide
  refine forall_mem_rules.2 ⟨?blank, ?numeral, ?quotation, ?template, ?word, ?comment, ?regExp,
    ?operator, ?punctuation⟩
  all_goals
    simp only [blankRules, numeralRules, quotationRules, templateRules, wordRules, commentRules,
      regExpRules, operatorRules, punctuationRules, List.forall_mem_cons, List.not_mem_nil,
      false_imp_iff, implies_true, and_true, true_imp_iff, true_and, hes5, hes2016, reduceCtorEq,
      Action.emit.injEq, forall_eq']
  case numeral =>
    exact ⟨fun _ _ _ => isNovel_of_inRadix (by decide),
      fun _ _ _ => isNovel_of_inRadix (by decide)⟩
  case template => exact ⟨fun _ _ _ _ => rfl, fun _ _ _ _ => rfl, fun _ _ _ _ => rfl, fun _ _ _ _ => rfl⟩
  case word =>
    intro text lexeme rest h
    obtain ⟨-, rfl⟩ := Name.lawful_wordIn (by decide +kernel) h
    exact decide_eq_true (Name.wordIn_eq_some_iff.1 h).1
  case comment =>
    exact ⟨fun _ _ _ => isNovel_of_toLineEnd (by decide) (by decide),
      fun _ _ _ => isNovel_of_toLineEnd (by decide) (by decide)⟩
  case operator =>
    intro text lexeme rest h
    obtain ⟨spelling, hmem, hfound⟩ := List.exists_of_findSome?_eq_some h
    obtain ⟨rfl, -⟩ := exactly_eq_some_iff.1 hfound
    exact decide_eq_true hmem

/-- What the first rule finds, it finds as well where some rules that find something else are kept out. -/
theorem firstOf_eq_of_forall {family : List Rule} {older newer : Edition} {context : Context}
    {text : Text} {found : Selection}
    (hkept : ∀ rule ∈ family, rule.find? older context text = rule.find? newer context text ∨
      rule.find? older context text = none ∧ rule.find? newer context text ≠ some found)
    (h : firstOf family newer context text = some found) :
    firstOf family older context text = some found := by
  induction family with
  | nil => cases h
  | cons rule family ih =>
    have hlater := ih fun other hmem => hkept other (List.mem_cons_of_mem _ hmem)
    simp only [firstOf_cons] at h ⊢
    cases hnew : rule.find? newer context text with
    | none =>
      have hold : rule.find? older context text = none := by
        rcases hkept rule List.mem_cons_self with hsame | ⟨hout, -⟩
        · exact hsame.trans hnew
        · exact hout
      rw [hnew, Option.none_or] at h
      rw [hold, Option.none_or, hlater h]
    | some first =>
      rw [hnew, Option.some_or] at h
      rcases hkept rule List.mem_cons_self with hsame | ⟨-, hother⟩
      · rw [hsame, hnew, Option.some_or, h]
      · exact absurd (hnew.trans h) hother

/-- What the edition of 2015 selects in a form that is not its own, the oldest edition selects. -/
theorem select_es5 {context : Context} {text lexeme rest : Text} {kind : TokenKind}
    (hnovel : kind.isNovel lexeme = false)
    (h : select .es2015 context text = some { action := .emit kind, lexeme, rest }) :
    select .es5 context text = some { action := .emit kind, lexeme, rest } := by
  refine firstOf_eq_of_forall (fun rule hmem => ?_) h
  rcases since_of_mem_rules rule hmem with hsince | hsince | ⟨hsince, -⟩
  · refine .inl ?_
    simp only [Rule.find?, Rule.applies, hsince]
    rfl
  · refine .inr ⟨?_, fun hfind => ?_⟩
    · simp only [Rule.find?, Rule.applies, hsince]
      rfl
    · obtain ⟨-, haction, hmatch⟩ := Rule.find?_eq_some_iff.1 hfind
      rw [isNovel_of_mem_rules rule hmem hsince kind haction _ _ _ hmatch] at hnovel
      cases hnovel
  · refine .inl ?_
    simp only [Rule.find?, Rule.applies, hsince]
    rfl

/-- A source that the edition of 2015 reads to its end, without a token of the forms it brought, the oldest
edition reads to its end as well, and gives the same tokens, under the same limit and under any that allows as
many. -/
theorem tokenize_es5_of_es2015 {source : Text} {limit : UInt64} {tokens : List Token}
    (h : tokenize source { edition := .es2015, iterationLimit := limit } = .ok tokens)
    (hnovel : ∀ token ∈ tokens, token.kind.isNovel token.text = false) :
    tokenize source { edition := .es5, iterationLimit := limit } = .ok tokens ∧
    ∀ other : UInt64, tokens.length ≤ other.toNat →
      tokenize source { edition := .es5, iterationLimit := other } = .ok tokens := by
  obtain ⟨last, hemits, hrest⟩ := Lexer.tokenize_eq_ok_iff.1 h
  have hunder : ∀ other : UInt64, tokens.length ≤ other.toNat →
      tokenize source { edition := .es5, iterationLimit := other } = .ok tokens := by
    intro other hother
    have hagain := @Lexer.Emits.withSettings _ _ _ hemits
      { edition := .es5, iterationLimit := other } ?_ ?_
    · exact Lexer.tokenize_eq_ok_iff.2 ⟨_, hagain, hrest⟩
    · intro now kind lexeme rest hsame hmem hselect
      unfold Lexer.selection at hselect ⊢
      rw [hsame] at hselect
      exact select_es5 (hnovel _ hmem) hselect
    · refine ⟨rfl, ?_⟩
      show 0 + tokens.length ≤ other.toNat
      omega
  have hlimit := hemits.length_le_limit (UInt64.le_iff_toNat_le.2 (Nat.zero_le _))
  exact ⟨hunder limit (Nat.le_trans (Nat.le_add_left _ _) hlimit), hunder⟩

/-- A word of 2015 that is a name here, and signs that would be a markup comment at the start of a line. -/
theorem tokenize_es5_of_es2015_letAfterPeriod :
    let source : Text := "a.let-->0".toList
    let tokens : List Token :=
      [⟨.identifier, "a".toList, ⟨0, 1, ⟨1, 1⟩⟩⟩, ⟨.period, ".".toList, ⟨1, 2, ⟨1, 2⟩⟩⟩,
        ⟨.identifier, "let".toList, ⟨2, 5, ⟨1, 3⟩⟩⟩, ⟨.operator, "--".toList, ⟨5, 7, ⟨1, 6⟩⟩⟩,
        ⟨.operator, ">".toList, ⟨7, 8, ⟨1, 8⟩⟩⟩, ⟨.literal, "0".toList, ⟨8, 9, ⟨1, 9⟩⟩⟩]
    tokenize source { edition := .es2015 } = .ok tokens ∧
    (∀ token ∈ tokens, token.kind.isNovel token.text = false) ∧
    tokenize source { edition := .es5 } = .ok tokens := by
  intro source tokens
  have h : tokenize source { edition := .es2015 } = .ok tokens :=
    Lexer.Run.result_eq_ok_iff.2 ⟨by decide +kernel, by decide +kernel⟩
  have hnovel : ∀ token ∈ tokens, token.kind.isNovel token.text = false := by decide +kernel
  exact ⟨h, hnovel, (tokenize_es5_of_es2015 h hnovel).1⟩

end EcmaLex
