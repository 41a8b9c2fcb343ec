import EcmaLex.Proofs.Dispatch

/-!
# When the rules were introduced

Every rule has been introduced in one of three editions: the oldest, the one that brought templates, and
the one that brought the operators for powers. Nothing is selected in an edition before the oldest one:
`includes_es5_of_select`. Rules that the text keeps out make no difference: `select_congr`.
-/

namespace EcmaLex

open Matcher

theorem exists_of_select {edition : Edition} {context : Context} {text : Text} {found : Selection}
    (h : select edition context text = some found) :
    ∃ rule ∈ rules, edition.includes rule.since = true ∧ rule.guard context = true ∧
      rule.action = found.action ∧ rule.matcher text = some (found.lexeme, found.rest) := by
  have hfirst : firstOf rules edition context text = some found := h
  obtain ⟨rule, hmem, happlies, haction, hmatch⟩ := exists_of_firstOf hfirst
  simp only [Rule.applies, Bool.and_eq_true] at happlies
  exact ⟨rule, hmem, happlies.1, happlies.2, haction, hmatch⟩

/-- Only the operators for powers came with the newest of the three editions. -/
theorem since_of_mem_rules : ∀ rule ∈ rules,
    rule.since = .es5 ∨ rule.since = .es2015 ∨
      rule.since = .es2016 ∧ rule.matcher = oneOf Operator.exponent := by
  simp only [rules, blankRules, numeralRules, quotationRules, templateRules, wordRules,
    commentRules, regExpRules, operatorRules, punctuationRules, List.forall_mem_append,
    List.forall_mem_cons, List.not_mem_nil, false_imp_iff, implies_true, and_true, true_or, or_true]

/-- An edition in which anything is selected includes the oldest one. -/
theorem includes_es5_of_select {edition : Edition} {context : Context} {text : Text}
    {found : Selection} (h : select edition context text = some found) :
    edition.includes .es5 = true := by
  obtain ⟨rule, hmem, hsince, -⟩ := exists_of_select h
  refine Edition.includes_of_le hsince ?_
  rcases since_of_mem_rules rule hmem with heq | heq | ⟨heq, -⟩ <;> rw [heq] <;> decide

/-- Rules that the text keeps out, or that another edition and context let take part alike, answer
alike. -/
theorem select_congr {first second : Edition} {one other : Context} {text : Text}
    (h : ∀ rule ∈ rules,
      rule.applies first one = rule.applies second other ∨ rule.matcher text = none) :
    select first one text = select second other text := by
  have hfind : ∀ rule ∈ rules, rule.find? first one text = rule.find? second other text := by
    intro rule hmem
    rcases h rule hmem with happlies | hnone
    · rw [Rule.find?, Rule.find?, happlies]
    · simp only [Rule.find?, hnone, Option.map_none, ite_self]
  unfold select
  generalize rules = family at hfind
  induction family with
  | nil => rfl
  | cons rule family ih =>
    rw [List.findSome?_cons, List.findSome?_cons, hfind rule List.mem_cons_self,
      ih fun other hmem => hfind other (List.mem_cons_of_mem _ hmem)]

end EcmaLex
