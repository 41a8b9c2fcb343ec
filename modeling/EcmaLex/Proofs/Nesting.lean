import EcmaLex.Proofs.Introduced
import EcmaLex.Proofs.Partition
import EcmaLex.Proofs.Piece
import Mathlib.Algebra.Group.Nat.Defs

/-!
# The nesting is read off the tokens

A left brace and the start of a template open something, a right brace and the end of a template
close what was opened last. `unmatched` reads this off the kinds of the tokens alone and fails where
a token closes what is not innermost. The counters of the nesting are the numbers of left braces
between the unmatched interpolations, as long as these numbers fit a counter: `Mirrors`.
-/

namespace EcmaLex

/-- What a token can open. -/
inductive Opener where
  | brace
  | interpolation
  deriving DecidableEq, Repr

/-- What is open after one more token, innermost first. A token must not close, or go on with, what
is not innermost. -/
def Opener.after : List Opener → TokenKind → Option (List Opener)
  | openers, .leftBrace => some (.brace :: openers)
  | openers, .templateStart => some (.interpolation :: openers)
  | .brace :: openers, .rightBrace => some openers
  | _, .rightBrace => none
  | .interpolation :: openers, .templateMiddle => some (.interpolation :: openers)
  | _, .templateMiddle => none
  | .interpolation :: openers, .templateEnd => some openers
  | _, .templateEnd => none
  | openers, _ => some openers

/-- What is open after tokens of the given kinds. -/
def unmatched (kinds : List TokenKind) : Option (List Opener) :=
  kinds.foldlM Opener.after []

theorem unmatched_concat (kinds : List TokenKind) (kind : TokenKind) :
    unmatched (kinds ++ [kind]) =
      (unmatched kinds).bind fun openers => Opener.after openers kind := by
  simp only [unmatched, List.foldlM_append, List.foldlM_cons, List.foldlM_nil, bind_pure]
  rfl

/-- The numbers of left braces between the open interpolations, innermost first. -/
def braceCounts (openers : List Opener) : List Nat :=
  (openers.splitOn .interpolation).map List.length

@[simp] theorem braceCounts_nil : braceCounts [] = [0] := rfl

@[simp] theorem braceCounts_interpolation (openers : List Opener) :
    braceCounts (.interpolation :: openers) = 0 :: braceCounts openers := by
  simp [braceCounts, List.splitOn_cons_eq_if_modifyHead]

theorem braceCounts_brace {openers : List Opener} {count : Nat} {counts : List Nat}
    (h : braceCounts openers = count :: counts) :
    braceCounts (.brace :: openers) = (count + 1) :: counts := by
  unfold braceCounts at h ⊢
  rw [List.splitOn_cons_eq_if_modifyHead, if_neg (by decide)]
  cases hsplit : openers.splitOn .interpolation with
  | nil => simp [hsplit] at h
  | cons first later =>
    rw [hsplit, List.map_cons, List.cons.injEq] at h
    rw [List.modifyHead_cons, List.map_cons, List.length_cons, h.1, h.2]

theorem exists_braceCounts_eq (openers : List Opener) :
    ∃ count counts, braceCounts openers = count :: counts := by
  cases h : braceCounts openers with
  | nil => exact absurd (List.map_eq_nil_iff.1 h) (List.splitOn_ne_nil _ _)
  | cons count counts => exact ⟨count, counts, rfl⟩

theorem length_braceCounts (openers : List Opener) :
    (braceCounts openers).length = 1 + openers.count .interpolation := by
  induction openers with
  | nil => rfl
  | cons opener openers ih =>
    cases opener with
    | interpolation => simp [ih, Nat.add_assoc]
    | brace =>
      obtain ⟨count, counts, h⟩ := exists_braceCounts_eq openers
      rw [h] at ih
      rw [braceCounts_brace h, List.count_cons_of_ne (by decide)]
      exact ih

theorem le_length_of_mem_braceCounts {openers : List Opener} {count : Nat}
    (h : count ∈ braceCounts openers) : count ≤ openers.length := by
  induction openers generalizing count with
  | nil => simp at h; omega
  | cons opener openers ih =>
    rw [List.length_cons]
    cases opener with
    | interpolation =>
      rw [braceCounts_interpolation, List.mem_cons] at h
      rcases h with rfl | h
      · omega
      · have := ih h
        omega
    | brace =>
      obtain ⟨first, counts, hcounts⟩ := exists_braceCounts_eq openers
      rw [braceCounts_brace hcounts, List.mem_cons] at h
      rcases h with rfl | h
      · have hfirst : first ∈ braceCounts openers := by simp [hcounts]
        have := ih hfirst
        omega
      · have hlater : count ∈ braceCounts openers := by simp [hcounts, h]
        have := ih hlater
        omega

namespace Nesting

/-- The counters, that of the innermost interpolation first. -/
def counters (nesting : Nesting) : List UInt32 :=
  nesting.top :: nesting.outer

/-- The counters hold the numbers of braces that are open. -/
def Mirrors (nesting : Nesting) (openers : List Opener) : Prop :=
  nesting.counters.map UInt32.toNat = braceCounts openers

/-- What the nesting must be for a token of the given kind. -/
def Admits (nesting : Nesting) : TokenKind → Prop
  | .rightBrace => nesting.top ≠ 0
  | .templateMiddle | .templateEnd => nesting.atInterpolationEnd = true
  | _ => True

theorem mirrors_empty : Mirrors .empty [] := rfl

theorem atInterpolationEnd_iff {nesting : Nesting} :
    nesting.atInterpolationEnd = true ↔ nesting.outer ≠ [] ∧ nesting.top = 0 := by
  simp [atInterpolationEnd, inInterpolation]

@[simp] theorem outer_closeBrace (nesting : Nesting) : nesting.closeBrace.outer = nesting.outer := by
  unfold closeBrace closeBrace?
  split <;> rfl

/-- A counter that is not zero does not start over where a brace is closed. -/
theorem toNat_top_closeBrace {nesting : Nesting} (htop : nesting.top ≠ 0) :
    nesting.closeBrace.top.toNat = nesting.top.toNat - 1 := by
  have hclose : nesting.closeBrace = { nesting with top := nesting.top - 1 } := by
    simp [closeBrace, closeBrace?, htop]
  have hpos : nesting.top.toNat ≠ 0 := fun hzero => htop (UInt32.toNat_inj.1 hzero)
  have hle : (1 : UInt32) ≤ nesting.top := UInt32.le_iff_toNat_le.2 (Nat.pos_of_ne_zero hpos)
  rw [hclose]
  exact UInt32.toNat_sub_of_le _ _ hle

namespace Mirrors

variable {nesting : Nesting} {openers : List Opener}

theorem depth_eq (h : nesting.Mirrors openers) :
    nesting.depth = 1 + openers.count .interpolation := by
  have hlength := congrArg List.length h
  rw [List.length_map, length_braceCounts] at hlength
  exact hlength

/-- Where the innermost counter is not zero, a left brace was opened last. -/
theorem brace_of_top_ne_zero (h : nesting.Mirrors openers) (htop : nesting.top ≠ 0) :
    ∃ outer, openers = .brace :: outer := by
  have hpos : nesting.top.toNat ≠ 0 := fun hzero => htop (UInt32.toNat_inj.1 hzero)
  unfold Mirrors counters at h
  cases openers with
  | nil => simp [hpos] at h
  | cons opener outer =>
    cases opener with
    | brace => exact ⟨outer, rfl⟩
    | interpolation => simp [hpos] at h

/-- Where an interpolation ends, it was opened last. -/
theorem interpolation_of_atEnd (h : nesting.Mirrors openers)
    (hend : nesting.atInterpolationEnd = true) : ∃ outer, openers = .interpolation :: outer := by
  obtain ⟨houter, htop⟩ := atInterpolationEnd_iff.1 hend
  unfold Mirrors counters at h
  cases openers with
  | nil => simp [houter] at h
  | cons opener outer =>
    cases opener with
    | interpolation => exact ⟨outer, rfl⟩
    | brace =>
      obtain ⟨count, counts, hcounts⟩ := exists_braceCounts_eq outer
      rw [braceCounts_brace hcounts, htop] at h
      simp at h

theorem openers_eq_nil_iff (h : nesting.Mirrors openers) :
    openers = [] ↔ nesting.top = 0 ∧ nesting.outer = [] := by
  constructor
  · intro hnil
    rw [hnil] at h
    simpa [Mirrors, counters, ← UInt32.toNat_inj] using h
  · intro hempty
    unfold Mirrors counters at h
    cases openers with
    | nil => rfl
    | cons opener outer =>
      obtain ⟨count, counts, hcounts⟩ := exists_braceCounts_eq outer
      cases opener with
      | interpolation => simp [hempty, hcounts] at h
      | brace => simp [braceCounts_brace hcounts, hempty] at h

theorem enter (h : nesting.Mirrors openers) : nesting.enter.Mirrors (.interpolation :: openers) := by
  show (0 : UInt32).toNat :: nesting.counters.map UInt32.toNat = _
  rw [h, braceCounts_interpolation]
  rfl

theorem leave (h : nesting.Mirrors (.interpolation :: openers)) : nesting.leave.Mirrors openers := by
  obtain ⟨top, outer⟩ := nesting
  unfold Mirrors counters at h
  rw [braceCounts_interpolation] at h
  cases outer with
  | nil =>
    obtain ⟨count, counts, hcounts⟩ := exists_braceCounts_eq openers
    simp [hcounts] at h
  | cons next outer =>
    rw [List.map_cons, List.cons.injEq] at h
    exact h.2

theorem openBrace (h : nesting.Mirrors openers) (hfits : nesting.top.toNat + 1 < 2 ^ 32) :
    nesting.openBrace.Mirrors (.brace :: openers) := by
  unfold Mirrors counters at h ⊢
  have htop : (nesting.top + 1).toNat = nesting.top.toNat + 1 := by
    rw [UInt32.toNat_add]
    exact Nat.mod_eq_of_lt hfits
  rw [List.map_cons] at h
  rw [braceCounts_brace h.symm, ← htop]
  rfl

theorem closeBrace (h : nesting.Mirrors (.brace :: openers)) (htop : nesting.top ≠ 0) :
    nesting.closeBrace.Mirrors openers := by
  obtain ⟨count, counts, hcounts⟩ := exists_braceCounts_eq openers
  unfold Mirrors counters at h ⊢
  rw [braceCounts_brace hcounts, List.map_cons, List.cons.injEq] at h
  rw [hcounts, List.map_cons, toNat_top_closeBrace htop, outer_closeBrace, h.1, h.2]
  rfl

/-- A token that the nesting admits closes what is innermost, and the counters follow. -/
theorem after (h : nesting.Mirrors openers) {kind : TokenKind} (hadmits : nesting.Admits kind)
    (hfits : kind = .leftBrace → nesting.top.toNat + 1 < 2 ^ 32) :
    ∃ now, Opener.after openers kind = some now ∧
      (Context.nestingAfter nesting kind).Mirrors now := by
  cases kind with
  | leftBrace => exact ⟨_, rfl, h.openBrace (hfits rfl)⟩
  | templateStart => exact ⟨_, rfl, h.enter⟩
  | rightBrace =>
    obtain ⟨outer, rfl⟩ := h.brace_of_top_ne_zero hadmits
    exact ⟨outer, rfl, h.closeBrace hadmits⟩
  | templateMiddle =>
    obtain ⟨outer, rfl⟩ := h.interpolation_of_atEnd hadmits
    exact ⟨_, rfl, h⟩
  | templateEnd =>
    obtain ⟨outer, rfl⟩ := h.interpolation_of_atEnd hadmits
    exact ⟨outer, rfl, h.leave⟩
  | _ => exact ⟨openers, by cases openers <;> rfl, h⟩

end Mirrors

end Nesting

theorem Context.nesting_observe (context : Context) (kind : TokenKind) :
    (context.observe kind).nesting = nestingAfter context.nesting kind := by
  cases kind <;> rfl

/-- A rule that emits a token takes part only where the nesting admits it. -/
theorem admits_of_guard (context : Context) : ∀ rule ∈ rules, rule.guard context = true →
    ∀ kind, rule.action = .emit kind → context.nesting.Admits kind := by
  simp only [rules, blankRules, numeralRules, quotationRules, templateRules, wordRules,
    commentRules, regExpRules, operatorRules, punctuationRules, List.forall_mem_append,
    List.forall_mem_cons, List.not_mem_nil, false_imp_iff, implies_true, and_true, reduceCtorEq,
    Action.emit.injEq, forall_eq', Nesting.Admits, bne_iff_ne, imp_self]

/-- Only the last rule finds an unmatched brace, at a right brace with the counter at zero. -/
theorem of_fail_unmatchedBrace (context : Context) : ∀ rule ∈ rules, rule.guard context = true →
    rule.action = .fail .unmatchedBrace →
      context.nesting.top = 0 ∧ rule.matcher = Matcher.exactly ['}'] := by
  simp only [rules, blankRules, numeralRules, quotationRules, templateRules, wordRules,
    commentRules, regExpRules, operatorRules, punctuationRules, List.forall_mem_append,
    List.forall_mem_cons, List.not_mem_nil, false_imp_iff, implies_true, and_true, reduceCtorEq,
    Action.fail.injEq, beq_iff_eq, forall_const, imp_self]

/-- Templates are known from the edition of templates on. -/
theorem includes_of_emit_templateStart (edition : Edition) : ∀ rule ∈ rules,
    edition.includes rule.since = true → rule.action = .emit .templateStart →
      edition.includes .es2015 = true := by
  simp only [rules, blankRules, numeralRules, quotationRules, templateRules, wordRules,
    commentRules, regExpRules, operatorRules, punctuationRules, List.forall_mem_append,
    List.forall_mem_cons, List.not_mem_nil, false_imp_iff, implies_true, and_true, reduceCtorEq,
    Action.emit.injEq, forall_const, imp_self]

/-- At a right brace the template rules answer before those for punctuation, and no other rule. -/
theorem select_rightBrace (edition : Edition) (context : Context) (rest : Text) :
    select edition context ('}' :: rest) =
      (firstOf templateRules edition context ('}' :: rest)).or
        (firstOf punctuationRules edition context ('}' :: rest)) := by
  have hopened : rulesOpenedBy '}' = templateRules ++ punctuationRules := rfl
  rw [select_cons, hopened, firstOf_append]

theorem firstOf_templateRules_rightBrace (edition : Edition) (context : Context) (rest : Text) :
    firstOf templateRules edition context ('}' :: rest) =
      firstOf (pieceRules (fun context => context.nesting.atInterpolationEnd) '}' laterKind
        .templateSection) edition context ('}' :: rest) := by
  have hquote : ('}' :: rest).head? ≠ some Template.backquote := by
    rw [List.head?_cons]
    decide
  rw [templateRules_eq, firstOf_append, firstOf_pieceRules_other hquote, Option.none_or]

/-- Where an interpolation ends, a right brace always goes on with the template. -/
theorem firstOf_templateRules_ne_none {edition : Edition} {context : Context} (rest : Text)
    (hsince : edition.includes .es2015 = true)
    (hend : context.nesting.atInterpolationEnd = true) :
    firstOf templateRules edition context ('}' :: rest) ≠ none := by
  have happlies : (edition.includes .es2015 && context.nesting.atInterpolationEnd) = true := by
    rw [hsince, hend]
    rfl
  rw [firstOf_templateRules_rightBrace, Option.ne_none_iff_exists']
  cases hbody : Template.body rest with
  | none => exact ⟨_, firstOf_pieceRules_open _ happlies hbody⟩
  | some found => exact ⟨_, firstOf_pieceRules_body _ happlies hbody⟩

/-- Where an interpolation ends, only the rules for the pieces that follow one answer to a right brace. -/
theorem select_interpolationEnd {edition : Edition} {context : Context} (rest : Text)
    (hsince : edition.includes .es2015 = true)
    (hend : context.nesting.atInterpolationEnd = true) :
    select edition context ('}' :: rest) =
      firstOf (pieceRules (fun context => context.nesting.atInterpolationEnd) '}' laterKind
        .templateSection) edition context ('}' :: rest) := by
  have hne := firstOf_templateRules_ne_none rest hsince hend
  rw [firstOf_templateRules_rightBrace] at hne
  obtain ⟨found, hfound⟩ := Option.ne_none_iff_exists'.1 hne
  rw [select_rightBrace, firstOf_templateRules_rightBrace, hfound, Option.some_or]

theorem firstOf_templateRules_eq_none {edition : Edition} {context : Context} {rest : Text}
    (hend : context.nesting.atInterpolationEnd = false) :
    firstOf templateRules edition context ('}' :: rest) = none := by
  rw [firstOf_templateRules_rightBrace]
  apply firstOf_pieceRules_skip
  rw [hend, Bool.and_false]
  decide

/-- A right brace that the counter does not admit is a fault, outside every interpolation. -/
theorem firstOf_punctuationRules_rightBrace {edition : Edition} {context : Context} {rest : Text}
    (hsince : edition.includes .es5 = true) (htop : context.nesting.top = 0) :
    firstOf punctuationRules edition context ('}' :: rest) =
      some { action := .fail .unmatchedBrace, lexeme := ['}'], rest } := by
  simp [firstOf, punctuationRules, Rule.find?, Rule.applies, Matcher.exactly, List.isPrefixOf,
    hsince, htop]

/-- A right brace that the counter admits closes a brace. -/
theorem firstOf_punctuationRules_closes {edition : Edition} {context : Context} {rest : Text}
    (hsince : edition.includes .es5 = true) (htop : context.nesting.top ≠ 0) :
    firstOf punctuationRules edition context ('}' :: rest) =
      some { action := .emit .rightBrace, lexeme := ['}'], rest } := by
  simp [firstOf, punctuationRules, Rule.find?, Rule.applies, Matcher.exactly, List.isPrefixOf,
    hsince, htop]

/-- A left brace is always read as one. -/
theorem select_leftBrace {edition : Edition} (hes5 : edition.includes .es5 = true) (context : Context)
    (rest : Text) :
    select edition context ('{' :: rest) =
      some { action := .emit .leftBrace, lexeme := ['{'], rest } := by
  have hopened : rulesOpenedBy '{' = punctuationRules := rfl
  rw [select_cons, hopened]
  simp [firstOf, punctuationRules, Rule.find?, Rule.applies, Matcher.exactly, List.isPrefixOf, hes5]

/-- An unmatched brace is found exactly at a right brace with no brace and no interpolation open. -/
theorem select_unmatchedBrace_iff {edition : Edition} {context : Context} {text : Text}
    (hes5 : edition.includes .es5 = true)
    (hes2015 : context.nesting.outer ≠ [] → edition.includes .es2015 = true) :
    (∃ lexeme rest, select edition context text =
        some { action := .fail .unmatchedBrace, lexeme, rest }) ↔
      text.head? = some '}' ∧ context.nesting.top = 0 ∧ context.nesting.outer = [] := by
  constructor
  · intro hfound
    obtain ⟨lexeme, rest, hselect⟩ := hfound
    obtain ⟨rule, hmem, -, hguard, haction, hmatch⟩ := exists_of_select hselect
    obtain ⟨htop, hmatcher⟩ := of_fail_unmatchedBrace context rule hmem hguard haction
    rw [hmatcher, Matcher.exactly_eq_some_iff] at hmatch
    obtain ⟨-, rfl⟩ := hmatch
    refine ⟨rfl, htop, ?_⟩
    by_cases houter : context.nesting.outer = []
    · exact houter
    · have hend := Nesting.atInterpolationEnd_iff.2 ⟨houter, htop⟩
      have hne := firstOf_templateRules_ne_none rest (hes2015 houter) hend
      obtain ⟨found, hfirst⟩ := Option.ne_none_iff_exists'.1 hne
      rw [List.singleton_append, select_rightBrace, hfirst, Option.some_or, Option.some.injEq]
        at hselect
      obtain ⟨other, hother, -, hfail, -⟩ := exists_of_firstOf hfirst
      have hact : ∀ rule ∈ templateRules, rule.action ≠ .fail .unmatchedBrace := by
        simp [templateRules]
      exact absurd (by rw [hfail, hselect]) (hact other hother)
  · intro hempty
    obtain ⟨hhead, htop, houter⟩ := hempty
    obtain ⟨rest, rfl⟩ : ∃ rest, text = '}' :: rest := by
      cases text with
      | nil => cases hhead
      | cons c rest => exact ⟨rest, by rw [Option.some.inj hhead]⟩
    have hend : context.nesting.atInterpolationEnd = false := by
      simp [Nesting.atInterpolationEnd, Nesting.inInterpolation, houter]
    refine ⟨['}'], rest, ?_⟩
    rw [select_rightBrace, firstOf_templateRules_eq_none hend, Option.none_or,
      firstOf_punctuationRules_rightBrace hes5 htop]

end EcmaLex
