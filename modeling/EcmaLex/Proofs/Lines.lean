import EcmaLex.Text.Lines
import Mathlib.Algebra.Group.Nat.Defs
import Mathlib.Data.List.DropRight

/-!
# Line terminators counted over a whole text

The number of line terminators of a text and the text after the last one add up over its pieces, unless
a piece ends between a CR and an LF. What `lineBreaks` finds in one piece are these two.
-/

namespace EcmaLex

/-- The pair CR LF stands where the two texts meet. -/
def SplitsPair (left right : Text) : Prop :=
  left.getLast? = some '\r' ∧ right.head? = some '\n'

theorem not_splitsPair_nil (right : Text) : ¬ SplitsPair [] right :=
  fun h => (by cases h.1)

namespace Text

/-- The number of line terminators of a text. Each is told by its last character: an LF, or a CR that
no LF follows. -/
def terminators : Text → Nat
  | [] => 0
  | c :: rest => terminators rest + if c = '\n' ∨ c = '\r' ∧ rest.head? ≠ some '\n' then 1 else 0

/-- The text after the last line terminator. -/
def lastLine (text : Text) : Text :=
  text.rtakeWhile fun c => !isLineTerminator c

theorem terminators_append {left right : Text} (h : ¬ SplitsPair left right) :
    terminators (left ++ right) = terminators left + terminators right := by
  induction left with
  | nil => simp [terminators]
  | cons c left ih =>
    cases left with
    | nil =>
      have hhead : c = '\r' → right.head? ≠ some '\n' :=
        fun hc hlf => h ⟨congrArg some hc, hlf⟩
      have hsame : (c = '\n' ∨ c = '\r' ∧ right.head? ≠ some '\n') ↔
          (c = '\n' ∨ c = '\r' ∧ ([] : Text).head? ≠ some '\n') :=
        or_congr_right (and_congr_right fun hc => by simp [hhead hc])
      rw [List.singleton_append, terminators, terminators, terminators, if_congr hsame rfl rfl]
      omega
    | cons d left =>
      have hlater : ¬ SplitsPair (d :: left) right := fun hpair => h ⟨hpair.1, hpair.2⟩
      have hhead : (d :: left ++ right).head? = (d :: left).head? := rfl
      rw [List.cons_append, terminators, terminators, hhead, ih hlater, Nat.add_right_comm]

/-- A CR and its LF are one terminator together and two apart. -/
theorem terminators_append_of_splitsPair {left right : Text} (h : SplitsPair left right) :
    terminators (left ++ right) + 1 = terminators left + terminators right := by
  obtain ⟨hcr, hlf⟩ := h
  obtain ⟨left, rfl⟩ := List.getLast?_eq_some_iff.1 hcr
  obtain ⟨right, rfl⟩ := List.head?_eq_some_iff.1 hlf
  have hapart : ∀ rest : Text, ¬ SplitsPair left ('\r' :: rest) :=
    fun rest hpair => absurd (Option.some.inj hpair.2) (by decide)
  have hwhole := terminators_append (hapart ('\n' :: right))
  have hleft := terminators_append (hapart [])
  have hone : terminators ['\r'] = 1 := rfl
  have hpair : terminators ('\r' :: '\n' :: right) = terminators right + 1 := by simp [terminators]
  have hfeed : terminators ('\n' :: right) = terminators right + 1 := by simp [terminators]
  rw [List.append_assoc, List.singleton_append]
  omega

theorem terminators_eq_zero_iff {text : Text} :
    terminators text = 0 ↔ ∀ c ∈ text, isLineTerminator c = false := by
  induction text with
  | nil => simp [terminators]
  | cons c text ih =>
    rw [terminators, Nat.add_eq_zero_iff, ih, List.forall_mem_cons, and_comm]
    refine and_congr_left fun hplain => ?_
    have hhead : text.head? ≠ some '\n' := by
      intro hlf
      have hbreak := hplain '\n' (List.mem_of_head? hlf)
      cases hbreak
    simp [isLineTerminator, hhead]

theorem length_lastLine_le (text : Text) : text.lastLine.length ≤ text.length :=
  (List.rtakeWhile_suffix _ _).length_le

theorem terminators_le_length (text : Text) : text.terminators ≤ text.length := by
  induction text with
  | nil => exact Nat.le_refl 0
  | cons c text ih =>
    rw [terminators, List.length_cons]
    split <;> omega

/-- A piece without line terminators goes on with the last line. -/
theorem lastLine_append_of_eq_zero {left right : Text} (h : right.terminators = 0) :
    lastLine (left ++ right) = lastLine left ++ right := by
  have hplain : ∀ c ∈ right.reverse, (!isLineTerminator c) = true := by
    intro c hc
    rw [terminators_eq_zero_iff.1 h c (List.mem_reverse.1 hc)]
    rfl
  rw [lastLine, lastLine, List.rtakeWhile, List.rtakeWhile, List.reverse_append,
    List.takeWhile_append_of_pos hplain, List.reverse_append, List.reverse_reverse]

/-- A piece with line terminators holds the last line. -/
theorem lastLine_append_of_ne_zero {left right : Text} (h : right.terminators ≠ 0) :
    lastLine (left ++ right) = lastLine right := by
  have hbreak : (right.reverse.takeWhile fun c => !isLineTerminator c).length ≠
      right.reverse.length := by
    intro hlength
    apply h
    have hself := (List.takeWhile_prefix _).eq_of_length hlength
    rw [List.takeWhile_eq_self_iff] at hself
    refine terminators_eq_zero_iff.2 fun c hc => ?_
    simpa using hself c (List.mem_reverse.2 hc)
  rw [lastLine, lastLine, List.rtakeWhile, List.rtakeWhile, List.reverse_append,
    List.takeWhile_append, if_neg hbreak]

theorem lastLine_of_eq_zero {text : Text} (h : text.terminators = 0) : text.lastLine = text :=
  @lastLine_append_of_eq_zero [] text h

/-- No character counts for a line and for a column. -/
theorem terminators_add_length_lastLine_le (text : Text) :
    text.terminators + text.lastLine.length ≤ text.length := by
  obtain ⟨before, happend⟩ : text.lastLine <:+ text := List.rtakeWhile_suffix _ _
  have hplain : ∀ c ∈ text.lastLine, isLineTerminator c = false := fun c hc => by
    simpa using List.mem_rtakeWhile_imp hc
  have hapart : ¬ SplitsPair before text.lastLine := fun h =>
    absurd (hplain '\n' (List.mem_of_head? h.2)) (by decide)
  have hcount := terminators_append hapart
  have hzero := terminators_eq_zero_iff.2 hplain
  have hbefore := terminators_le_length before
  have hlength := congrArg List.length happend
  rw [happend] at hcount
  rw [List.length_append] at hlength
  omega

/-- The text after a terminator in front of `rest`, in the form in which the cursor keeps it. -/
theorem lastLine_cons_terminator {c : Char} (hc : isLineTerminator c = true) (rest : Text) :
    lastLine (c :: rest) = lastLine rest := by
  by_cases hzero : rest.terminators = 0
  · have hempty : lastLine [c] = [] := by simp [lastLine, List.rtakeWhile, hc]
    rw [← List.singleton_append, lastLine_append_of_eq_zero hzero, lastLine_of_eq_zero hzero, hempty,
      List.nil_append]
  · exact @lastLine_append_of_ne_zero [c] rest hzero

/-- What the cursor finds in a piece: its terminators, and its last line if there are any. -/
theorem lineBreaks_eq (text : Text) :
    text.lineBreaks =
      { count := UInt32.ofNat text.terminators
        tail := if text.terminators = 0 then none else some text.lastLine } := by
  have hbefore : ∀ {rest : Text} {breaks : LineBreaks},
      breaks = { count := UInt32.ofNat rest.terminators
                 tail := if rest.terminators = 0 then none else some rest.lastLine } →
      breaks.before rest =
        { count := UInt32.ofNat (rest.terminators + 1), tail := some rest.lastLine } := by
    rintro rest breaks rfl
    rw [LineBreaks.before, UInt32.ofNat_add]
    by_cases hzero : rest.terminators = 0
    · rw [if_pos hzero, Option.getD_none, lastLine_of_eq_zero hzero]
      rfl
    · rw [if_neg hzero, Option.getD_some]
      rfl
  fun_induction lineBreaks text with
  | case1 => rfl
  | case2 rest ih =>
    have hcount : terminators ('\r' :: '\n' :: rest) = terminators rest + 1 := by
      simp [terminators]
    rw [hbefore ih, hcount, lastLine_cons_terminator rfl, lastLine_cons_terminator rfl,
      if_neg (Nat.succ_ne_zero _)]
  | case3 c rest hpair hterminator ih =>
    have hlast : c = '\n' ∨ c = '\r' ∧ rest.head? ≠ some '\n' := by
      simp only [isLineTerminator, Bool.or_eq_true, beq_iff_eq] at hterminator
      refine hterminator.imp_right fun hc => ⟨hc, fun hlf => ?_⟩
      obtain ⟨tail, hrest⟩ := List.head?_eq_some_iff.1 hlf
      exact hpair tail hc hrest
    have hcount : terminators (c :: rest) = terminators rest + 1 := by
      rw [terminators, if_pos hlast]
    rw [hbefore ih, hcount, lastLine_cons_terminator hterminator, if_neg (Nat.succ_ne_zero _)]
  | case4 c rest hpair hplain ih =>
    rw [Bool.not_eq_true] at hplain
    have hsingle : terminators [c] = 0 := terminators_eq_zero_iff.2 (by simpa using hplain)
    have hapart : ¬ SplitsPair [c] rest := by
      intro hpair
      rw [show c = '\r' from Option.some.inj hpair.1] at hplain
      cases hplain
    have hcount : terminators (c :: rest) = terminators rest := by
      rw [← List.singleton_append, terminators_append hapart, hsingle, Nat.zero_add]
    rw [ih, hcount]
    by_cases hzero : terminators rest = 0
    · rw [if_pos hzero, if_pos hzero]
    · rw [if_neg hzero, if_neg hzero, ← List.singleton_append, lastLine_append_of_ne_zero hzero]

theorem toNat_charCount {text : Text} (h : text.length < 2 ^ 32) :
    text.charCount.toNat = text.length := by
  have hsize : UInt32.size = 4294967296 := rfl
  rw [charCount, Nat.min_eq_left (by omega), UInt32.toNat_ofNat_of_lt' (by omega)]

end Text

end EcmaLex
