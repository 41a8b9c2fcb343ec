import EcmaLex.Proofs.Form
import EcmaLex.Toml.Library

/-!
# Documents of integers

A document may consist of lines that each give an integer to a bare name. Such a line is read as just that
assignment, whatever follows it: `sectionsFrom_line`. So the table of a document of such lines holds the
integer of each name, if no name is given twice: `document?_lines`.
-/

namespace EcmaLex

/-- Digits in which a number is written: at least one, and none behind a zero in front. -/
structure Text.IsDecimal (digits : Text) : Prop extends Text.IsRun Char.isDigit digits where
  zero_alone : ∀ tail, digits = '0' :: tail → tail = []

theorem Text.isDecimal_decimal (n : Nat) : IsDecimal (decimal n) := by
  refine ⟨⟨decimal_ne_nil n, fun c => isDigit_of_mem_decimal⟩, ?_⟩
  fun_induction decimal n with
  | case1 n hn => exact fun tail heq => (List.cons.inj heq).2.symm
  | case2 n hn ih =>
    intro tail heq
    obtain ⟨c, later, hlater⟩ := List.exists_cons_of_ne_nil (decimal_ne_nil (n / 10))
    rw [hlater, List.cons_append] at heq
    obtain ⟨rfl, rfl⟩ := List.cons.inj heq
    -- A zero in front would be all of the number without its last digit, which is not zero.
    have hzero := ofDecimal_decimal (n / 10)
    rw [hlater, ih later hlater] at hzero
    have : ofDecimal ['0'] = 0 := by decide
    omega

namespace Toml

section Digits

variable {digits rest : Text}

theorem moreDigits_append (hdigits : ∀ c ∈ digits, c.isDigit = true) (rest : Text) :
    moreDigits Char.isDigit (digits ++ '\n' :: rest) = (digits, '\n' :: rest) := by
  induction digits with
  | nil => simp [moreDigits]
  | cons c digits ih =>
    have hc := hdigits c List.mem_cons_self
    have hlater := ih fun d hd => hdigits d (List.mem_cons_of_mem _ hd)
    have hplain : c ≠ '_' := by
      rintro rfl
      exact absurd hc (by decide)
    simp [moreDigits, hc, hplain, hlater]

theorem isDigit_of_cons {c : Char} {tail : Text} (h : Text.IsRun Char.isDigit digits)
    (heq : digits ++ '\n' :: rest = c :: tail) : c.isDigit = true := by
  obtain ⟨d, later, rfl⟩ := List.exists_cons_of_ne_nil h.ne_nil
  rw [← (List.cons.inj heq).1]
  exact h.all d List.mem_cons_self

/-- No digit follows a zero in front, and no mark of another base. -/
theorem eq_lineFeed_of_cons {c : Char} {tail : Text} (h : digits.IsDecimal)
    (heq : digits ++ '\n' :: rest = '0' :: c :: tail) : c = '\n' := by
  obtain ⟨d, later, rfl⟩ := List.exists_cons_of_ne_nil h.ne_nil
  obtain ⟨rfl, hbehind⟩ := List.cons.inj heq
  obtain rfl := h.zero_alone later rfl
  exact (List.cons.inj hbehind).1.symm

theorem wholeDigits_append (h : digits.IsDecimal) (rest : Text) :
    wholeDigits (digits ++ '\n' :: rest) = some (digits, '\n' :: rest) := by
  obtain ⟨c, later, rfl⟩ := List.exists_cons_of_ne_nil h.ne_nil
  by_cases hzero : c = '0'
  · subst hzero
    obtain rfl := h.zero_alone later rfl
    rfl
  · have hc : c.isDigit = true := h.all c List.mem_cons_self
    have hlater := moreDigits_append (fun d hd => h.all d (List.mem_cons_of_mem _ hd)) rest
    rw [List.cons_append]
    unfold wholeDigits
    split
    · next heq => exact absurd (List.cons.inj heq).1 hzero
    · simp [Toml.digits, hc, hlater]

/-- A number of fixed length in front of a line feed is read from the digits before it. -/
theorem exists_of_fixedDigits {count low high n : Nat} {after : Text}
    (h : fixedDigits count low high (digits ++ '\n' :: rest) = some (n, after)) :
    ∃ found later, digits = found ++ later ∧ after = later ++ '\n' :: rest := by
  unfold fixedDigits at h
  simp only [Option.ite_none_right_eq_some, Bool.and_eq_true, Option.some.injEq, Prod.mk.injEq,
    List.all_eq_true] at h
  obtain ⟨⟨⟨⟨-, hall⟩, -⟩, -⟩, -, rfl⟩ := h
  have happend := List.take_append_drop count (digits ++ '\n' :: rest)
  obtain ⟨behind, htake, hfeed⟩ | ⟨later, hdigits, hdrop⟩ := List.append_eq_append_iff.1 happend.symm
  · cases behind with
    | nil => exact ⟨digits, [], (List.append_nil digits).symm, hfeed.symm⟩
    | cons c behind =>
      obtain ⟨rfl, -⟩ := List.cons.inj hfeed
      exact absurd (hall '\n' (by rw [htake]; simp)) (by decide)
  · exact ⟨_, later, hdigits, hdrop⟩

theorem expect_append {sep : Char} (hdigits : ∀ c ∈ digits, c.isDigit = true)
    (hsep : sep.isDigit = false) (hfeed : sep ≠ '\n') : expect sep (digits ++ '\n' :: rest) = none := by
  cases digits with
  | nil => exact if_neg fun heq => hfeed heq.symm
  | cons c digits =>
    refine if_neg fun heq => ?_
    rw [← heq, hdigits c List.mem_cons_self] at hsep
    cases hsep

theorem expect_of_fixedDigits {count low high n : Nat} {after : Text} {sep : Char}
    (hdigits : ∀ c ∈ digits, c.isDigit = true)
    (h : fixedDigits count low high (digits ++ '\n' :: rest) = some (n, after))
    (hsep : sep.isDigit = false) (hfeed : sep ≠ '\n') : expect sep after = none := by
  obtain ⟨found, later, rfl, rfl⟩ := exists_of_fixedDigits h
  exact expect_append (fun c hc => hdigits c (List.mem_append_right _ hc)) hsep hfeed

/-- Digits alone are neither a date nor a time. -/
theorem skipDateTime_append (hdigits : ∀ c ∈ digits, c.isDigit = true) (rest : Text) :
    skipDateTime (digits ++ '\n' :: rest) = none := by
  have hdate : skipDate (digits ++ '\n' :: rest) = none := by
    unfold skipDate
    cases hyear : fixedDigits 4 0 9999 (digits ++ '\n' :: rest) with
    | none => rfl
    | some found => simp [expect_of_fixedDigits hdigits hyear (by decide : '-'.isDigit = false)]
  have htime : skipTime (digits ++ '\n' :: rest) = none := by
    unfold skipTime
    cases hhour : fixedDigits 2 0 23 (digits ++ '\n' :: rest) with
    | none => rfl
    | some found => simp [expect_of_fixedDigits hdigits hhour (by decide : ':'.isDigit = false)]
  rw [skipDateTime, hdate, htime]

/-- Digits without a sign are read as an integer, and not as a float, in front of a line feed. -/
theorem unsignedNumber_append (h : digits.IsDecimal) (rest : Text) :
    unsignedNumber false (digits ++ '\n' :: rest) =
      (boundedInteger (Text.ofDecimal digits)).map fun value => (value, '\n' :: rest) := by
  have hwhole := wholeDigits_append h rest
  have hfloat : float (digits ++ '\n' :: rest) = none := by
    rw [float, hwhole]
    rfl
  unfold unsignedNumber
  split
  · next heq => exact absurd (isDigit_of_cons h.toIsRun heq) (by decide)
  · next heq => exact absurd (isDigit_of_cons h.toIsRun heq) (by decide)
  · rw [hfloat, hwhole]
    rfl

theorem number_append (h : digits.IsDecimal) (rest : Text) :
    number (digits ++ '\n' :: rest) =
      (boundedInteger (Text.ofDecimal digits)).map fun value => (value, '\n' :: rest) := by
  unfold number
  split
  · next heq => exact absurd (eq_lineFeed_of_cons h heq) (by decide)
  · next heq => exact absurd (eq_lineFeed_of_cons h heq) (by decide)
  · next heq => exact absurd (eq_lineFeed_of_cons h heq) (by decide)
  · next heq => exact absurd (isDigit_of_cons h.toIsRun heq) (by decide)
  · next heq => exact absurd (isDigit_of_cons h.toIsRun heq) (by decide)
  · exact unsignedNumber_append h rest

/-- Digits in front of a line feed are a number among the scalars. -/
theorem scalar_append (h : digits.IsDecimal) (rest : Text) :
    scalar (digits ++ '\n' :: rest) = number (digits ++ '\n' :: rest) := by
  have hstring : skipString (digits ++ '\n' :: rest) = none := by
    unfold skipString
    split
    · next heq => exact absurd (isDigit_of_cons h.toIsRun heq) (by decide)
    · next heq => exact absurd (isDigit_of_cons h.toIsRun heq) (by decide)
    · next heq => exact absurd (isDigit_of_cons h.toIsRun heq) (by decide)
    · next heq => exact absurd (isDigit_of_cons h.toIsRun heq) (by decide)
    · rfl
  unfold scalar
  split
  · next heq => exact absurd (isDigit_of_cons h.toIsRun heq) (by decide)
  · next heq => exact absurd (isDigit_of_cons h.toIsRun heq) (by decide)
  · rw [hstring, skipDateTime_append h.all]

/-- A number that is not too large is read back from its digits. -/
theorem value_decimal {n : Nat} (hbound : n < integerBound) (depth : Nat) (rest : Text) :
    value depth (Text.decimal n ++ '\n' :: rest) = some (.integer n, '\n' :: rest) := by
  have hdecimal := Text.isDecimal_decimal n
  have hscalar : value depth (Text.decimal n ++ '\n' :: rest) =
      scalar (Text.decimal n ++ '\n' :: rest) := by
    unfold value
    split
    · next heq => exact absurd (isDigit_of_cons hdecimal.toIsRun heq) (by decide)
    · next heq => exact absurd (isDigit_of_cons hdecimal.toIsRun heq) (by decide)
    · next heq => exact absurd (isDigit_of_cons hdecimal.toIsRun heq) (by decide)
    · next heq => exact absurd (isDigit_of_cons hdecimal.toIsRun heq) (by decide)
    · rfl
  have hinteger : boundedInteger n = some (.integer n) := by
    simp only [boundedInteger, Bool.and_eq_true, decide_eq_true_eq, ite_eq_left_iff]
    omega
  rw [hscalar, scalar_append hdecimal, number_append hdecimal, Text.ofDecimal_decimal, hinteger]
  rfl

end Digits

section Line

/-- A character of a bare name is none that means something else in a document. -/
theorem ne_of_isBare {c d : Char} (hc : isBare c = true) (hd : isBare d = false) : c ≠ d := by
  rintro rfl
  rw [hc] at hd
  cases hd

theorem isSpace_of_isBare {c : Char} (hc : isBare c = true) : isSpace c = false := by
  rw [isSpace, Bool.or_eq_false_iff, beq_eq_false_iff_ne, beq_eq_false_iff_ne]
  exact ⟨ne_of_isBare hc (by decide), ne_of_isBare hc (by decide)⟩

theorem isBare_of_isDigit {c : Char} (hc : c.isDigit = true) : isBare c = true := by
  simp [isBare, Char.isAlphanum, hc]

variable {bare : Text}

theorem name_append (hbare : Text.IsRun isBare bare) (rest : Text) :
    name (bare ++ ' ' :: rest) = some (bare, ' ' :: rest) := by
  have hrun : Text.run isBare (bare ++ ' ' :: rest) = (bare, ' ' :: rest) :=
    Text.run_eq_iff.2 ⟨hbare.all, rfl⟩
  have hmany := Matcher.manyOf_eq_some_iff.2 ⟨hbare.ne_nil, hrun⟩
  obtain ⟨c, tail, rfl⟩ := List.exists_cons_of_ne_nil hbare.ne_nil
  have hc := hbare.all c List.mem_cons_self
  unfold name
  split
  · next heq => exact absurd (List.cons.inj heq).1 (ne_of_isBare hc (by decide))
  · next heq => exact absurd (List.cons.inj heq).1 (ne_of_isBare hc (by decide))
  · exact hmany

theorem key_append (hbare : Text.IsRun isBare bare) (rest : Text) :
    key (bare ++ ' ' :: '=' :: rest) = some ([bare], ' ' :: '=' :: rest) := by
  have hnames : names (bare ++ ' ' :: '=' :: rest) = some ([bare], ' ' :: '=' :: rest) := by
    rw [names, name_append hbare]
    rfl
  rw [key, hnames]
  rfl

theorem line_append (name : Text) (n : Nat) (rest : Text) :
    line name n ++ rest = name ++ ' ' :: '=' :: ' ' :: (Text.decimal n ++ '\n' :: rest) := by
  simp [line]

/-- A line of a bare name and a number that is not too large is an assignment, up to its line feed. -/
theorem assignment_line (hbare : Text.IsRun isBare bare) {n : Nat} (hbound : n < integerBound)
    (depth : Nat) (rest : Text) :
    assignment (value depth) (line bare n ++ rest) =
      some ({ key := [bare], value := .integer n }, '\n' :: rest) := by
  have hkey := key_append hbare (' ' :: (Text.decimal n ++ '\n' :: rest))
  have hspaces : skipSpaces (' ' :: (Text.decimal n ++ '\n' :: rest)) =
      Text.decimal n ++ '\n' :: rest := by
    obtain ⟨c, tail, hdecimal⟩ := List.exists_cons_of_ne_nil (Text.decimal_ne_nil n)
    have hc : c.isDigit = true := Text.isDigit_of_mem_decimal (hdecimal ▸ List.mem_cons_self)
    have hplain : ¬ isSpace c = true := by
      rw [isSpace_of_isBare (isBare_of_isDigit hc)]
      decide
    rw [hdecimal, List.cons_append, skipSpaces, List.dropWhile_cons_of_pos rfl,
      List.dropWhile_cons_of_neg hplain]
  have hequals : expect '=' (skipSpaces (' ' :: '=' :: ' ' :: (Text.decimal n ++ '\n' :: rest))) =
      some (' ' :: (Text.decimal n ++ '\n' :: rest)) := rfl
  rw [line_append, assignment, hkey]
  simp only [Option.bind_eq_bind, Option.bind_some, hequals, hspaces, value_decimal hbound]
  rfl

/-- Nothing is skipped in front of a bare name. -/
theorem skipFiller_append (hbare : Text.IsRun isBare bare) (rest : Text) :
    skipFiller false (bare ++ rest) = bare ++ rest := by
  obtain ⟨c, tail, rfl⟩ := List.exists_cons_of_ne_nil hbare.ne_nil
  have hc := hbare.all c List.mem_cons_self
  have hreturn : c ≠ '\r' := ne_of_isBare hc (by decide)
  have hfeed : c ≠ '\n' := ne_of_isBare hc (by decide)
  have hcomment : c ≠ '#' := ne_of_isBare hc (by decide)
  simp [skipFiller, hreturn, hfeed, hcomment, isSpace_of_isBare hc]

/-- A line of a bare name and a number is an assignment of the section in which it stands. -/
theorem sectionsFrom_line (current : Heading) (hbare : Text.IsRun isBare bare) {n : Nat}
    (hbound : n < integerBound) (rest : Text) :
    sectionsFrom current (line bare n ++ rest) =
      (sectionsFrom current rest).map fun (part, parts) =>
        (part.cons { key := [bare], value := .integer n }, parts) := by
  have hfiller : skipFiller false (line bare n ++ rest) = line bare n ++ rest := by
    rw [line_append, skipFiller_append hbare]
  have hassignment := assignment_line hbare hbound maxDepth rest
  have hshorter : rest.length < (line bare n ++ rest).length := by
    rw [line_append]
    simp only [List.length_append, List.length_cons]
    omega
  obtain ⟨c, tail, rfl⟩ := List.exists_cons_of_ne_nil hbare.ne_nil
  have hc := hbare.all c List.mem_cons_self
  rw [sectionsFrom, hfiller]
  split
  · next heq => exact absurd heq (by rw [line_append]; exact List.cons_ne_nil _ _)
  · next heq =>
    rw [line_append] at heq
    exact absurd (List.cons.inj heq).1 (ne_of_isBare hc (by decide))
  · have hend : endLine? ('\n' :: rest) = some rest := rfl
    rw [hassignment]
    simp only [hend, if_pos hshorter]

/-- The assignments of lines. -/
def assignments (lines : List (Text × Nat)) : List Assignment :=
  lines.map fun entry => { key := [entry.1], value := .integer entry.2 }

/-- The text begins with a bare name, if it begins at all. -/
theorem isBare_of_linesText {lines : List (Text × Nat)}
    (hbare : ∀ entry ∈ lines, Text.IsRun isBare entry.1) {c : Char} {tail : Text}
    (heq : linesText lines = c :: tail) : isBare c = true := by
  cases lines with
  | nil => cases heq
  | cons entry lines =>
    have hfirst := hbare entry List.mem_cons_self
    obtain ⟨d, later, hname⟩ := List.exists_cons_of_ne_nil hfirst.ne_nil
    rw [linesText, List.flatMap_cons, line_append, hname] at heq
    rw [← (List.cons.inj heq).1]
    exact hfirst.all d (hname ▸ List.mem_cons_self)

/-- A document of lines is one section without a heading. -/
theorem sectionsFrom_lines (current : Heading) {lines : List (Text × Nat)}
    (hbare : ∀ entry ∈ lines, Text.IsRun isBare entry.1)
    (hbound : ∀ entry ∈ lines, entry.2 < integerBound) :
    sectionsFrom current (linesText lines) =
      some ({ heading := current, assignments := assignments lines }, []) := by
  induction lines with
  | nil =>
    rw [sectionsFrom]
    rfl
  | cons entry lines ih =>
    obtain ⟨hfirst, hlater⟩ := List.forall_mem_cons.1 hbare
    obtain ⟨hfirstBound, hlaterBound⟩ := List.forall_mem_cons.1 hbound
    rw [linesText, List.flatMap_cons, sectionsFrom_line current hfirst hfirstBound, ← linesText,
      ih hlater hlaterBound]
    rfl

end Line

namespace Entries

/-- What is put under a name stands there, and nothing else changes. -/
theorem get?_put (entries : Entries) (name other : Text) (node : Node) :
    (entries.put name node).get? other = if other = name then some node else entries.get? other := by
  have hfilter : other ≠ name →
      (entries.filter fun entry => entry.1 != name).lookup other = entries.lookup other := by
    intro hne
    induction entries with
    | nil => rfl
    | cons entry entries ih =>
      by_cases hsame : entry.1 = name
      · have hother : (other == entry.1) = false := beq_eq_false_iff_ne.2 (hsame ▸ hne)
        rw [List.filter_cons_of_neg (by simpa using hsame), ih, List.lookup_cons, hother]
      · rw [List.filter_cons_of_pos (by simpa using hsame), List.lookup_cons, List.lookup_cons, ih]
  rw [put, get?, get?, List.lookup_cons]
  by_cases h : other = name
  · rw [if_pos h, beq_iff_eq.2 h]
  · rw [if_neg h, beq_eq_false_iff_ne.2 h]
    exact hfilter h

/-- Under different names that the table does not hold, every integer is put, and nothing else changes. -/
theorem exists_assignAll {lines : List (Text × Nat)} {entries : Entries}
    (hnodup : (lines.map Prod.fst).Nodup)
    (habsent : ∀ entry ∈ lines, entries.get? entry.1 = none) :
    ∃ after, assignAll (assignments lines) entries = some after ∧
      ∀ name, after.get? name =
        ((lines.lookup name).map fun n : Nat => Node.leaf (.integer n)).or (entries.get? name) := by
  induction lines generalizing entries with
  | nil => exact ⟨entries, rfl, fun name => rfl⟩
  | cons entry lines ih =>
    obtain ⟨hnew, hlater⟩ := List.nodup_cons.1 hnodup
    obtain ⟨hfirst, hothers⟩ := List.forall_mem_cons.1 habsent
    let first := entries.put entry.1 (.leaf (.integer entry.2))
    have hassign : assign (.integer entry.2) [entry.1] entries = some first := by
      rw [assign, hfirst]
    have hput : ∀ name, first.get? name =
        if name = entry.1 then some (.leaf (.integer entry.2)) else entries.get? name :=
      fun name => get?_put entries entry.1 name _
    have hstill : ∀ other ∈ lines, first.get? other.1 = none := by
      intro other hmem
      have hne : other.1 ≠ entry.1 := fun heq => hnew (heq ▸ List.mem_map_of_mem hmem)
      rw [hput, if_neg hne]
      exact hothers other hmem
    obtain ⟨after, hafter, hget⟩ := ih hlater hstill
    refine ⟨after, ?_, fun name => ?_⟩
    · rw [assignAll, assignments, List.map_cons, List.foldlM_cons, hassign]
      exact hafter
    · rw [hget, hput, List.lookup_cons]
      by_cases hname : name = entry.1
      · have hnone : lines.lookup name = none := by
          refine List.lookup_eq_none_iff.2 fun other hmem => bne_iff_ne.2 ?_
          intro heq
          exact hnew ((hname.symm.trans heq) ▸ List.mem_map_of_mem hmem)
        rw [hnone, if_pos hname, beq_iff_eq.2 hname]
        rfl
      · rw [if_neg hname, beq_eq_false_iff_ne.2 hname]

end Entries

/-- The table of a document of lines with different bare names holds the number of each name, and nothing
else. -/
theorem document?_lines {lines : List (Text × Nat)}
    (hbare : ∀ entry ∈ lines, Text.IsRun isBare entry.1)
    (hbound : ∀ entry ∈ lines, entry.2 < integerBound) (hnodup : (lines.map Prod.fst).Nodup) :
    ∃ entries, document? (linesText lines) = some entries ∧
      ∀ name, entries.get? name = (lines.lookup name).map fun n : Nat => Node.leaf (.integer n) := by
  have hsections := sectionsFrom_lines .root hbare hbound
  obtain ⟨entries, hassign, hget⟩ :=
    @Entries.exists_assignAll lines [] hnodup fun _ _ => rfl
  refine ⟨entries, ?_, fun name => ?_⟩
  · have hmark : ∀ tail, linesText lines ≠ '\ufeff' :: tail := fun tail heq =>
      absurd (isBare_of_linesText hbare heq) (by decide)
    -- With `hmark` no byte order mark is taken off the text.
    generalize linesText lines = text at hsections hmark
    simp only [document?, hsections, Entries.ofSections, List.foldlM_cons, List.foldlM_nil,
      Entries.addSection, hassign]
    rfl
  · rw [hget]
    exact Option.or_none

end Toml

end EcmaLex
