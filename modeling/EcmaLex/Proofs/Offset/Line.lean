import EcmaLex.Proofs.Checked
import EcmaLex.Proofs.Offset.Basic

/-!
# Lines by byte offsets

The line terminators of a text are counted byte by byte, keeping the offset after the last one, where
the text is then cut.
-/

namespace EcmaLex.Text

/-- The text up to its first line terminator, cut at its offset. -/
def firstLine? (text : Text) : Option Text :=
  match text.findByte? isLineTerminator with
  | some stop => text.takeBytes? stop
  | none => some text

/-- The number of line terminators and the offset after the last, where the walk has come to `i`. There is
none where the number leaves its word. -/
def breaksFrom (text : Text) (i : Nat) (count : UInt32) (last : Option Nat) :
    Option (UInt32 × Option Nat) :=
  if i < text.byteSize then
    if text.byteAny i (· == '\r') then
      if text.byteAny (i + 1) (· == '\n') then
        (Checked.add count 1).bind fun count => breaksFrom text (i + 2) count (some (i + 2))
      else (Checked.add count 1).bind fun count => breaksFrom text (i + 1) count (some (i + 1))
    else if text.byteAny i (· == '\n') then
      (Checked.add count 1).bind fun count => breaksFrom text (i + 1) count (some (i + 1))
    else breaksFrom text (i + 1) count last
  else some (count, last)
termination_by text.byteSize - i

/-- The line terminators of a text. The text after the last one is cut off at its offset. -/
def lineBreaks? (text : Text) : Option LineBreaks :=
  match text.breaksFrom 0 0 none with
  | none => none
  | some (count, none) => some { count, tail := none }
  | some (count, some last) => (text.dropBytes? last).map fun tail => { count, tail := some tail }

theorem firstLine?_eq (text : Text) : text.firstLine? = some text.firstLine := by
  have hcut := takeBytes?_append (text.takeWhile fun c => !isLineTerminator c)
    (text.dropWhile fun c => !isLineTerminator c)
  rw [List.takeWhile_append_dropWhile, ← runSize_eq] at hcut
  simp only [runSize, Bool.not_not] at hcut
  unfold firstLine?
  cases hfind : text.findByte? isLineTerminator with
  | none =>
    simp only [hfind, Option.getD_none] at hcut
    have hall := takeBytes?_append text []
    rw [List.append_nil, hcut] at hall
    exact hall.symm
  | some stop =>
    simp only [hfind, Option.getD_some] at hcut
    exact hcut

/-- The text after the last terminator is an end of the text. -/
theorem exists_append_of_lineBreaks {text tail : Text} (h : text.lineBreaks.tail = some tail) :
    ∃ before, before ++ tail = text := by
  rw [lineBreaks_eq] at h
  obtain ⟨-, hlast⟩ := Option.ite_none_left_eq_some.1 h
  rw [← Option.some.inj hlast]
  exact List.rtakeWhile_suffix _ _

/-- A terminator is the last one exactly where none follows it. -/
theorem offset_before (breaks : LineBreaks) (rest : Text) (size : Nat) :
    (breaks.tail.map fun tail => size - tail.byteSize).or (some (size - rest.byteSize)) =
      (breaks.before rest).tail.map fun tail => size - tail.byteSize := by
  cases h : breaks.tail with
  | none => simp [LineBreaks.before, h]
  | some tail => simp [LineBreaks.before, h]

theorem breaksFrom_within (left : Text) {c : Char} (right : Text) (hc : isLineTerminator c = false)
    (count : UInt32) (last : Option Nat) :
    breaksFrom (left ++ c :: right) left.byteSize count last =
      breaksFrom (left ++ c :: right) (left.byteSize + c.utf8Size) count last := by
  obtain ⟨hlf, hcr⟩ : c ≠ '\n' ∧ c ≠ '\r' := by simpa [isLineTerminator] using hc
  refine @eq_of_steps _ (fun i => breaksFrom (left ++ c :: right) i count last) _ _ fun k hk => ?_
  have hbyte : ∀ d : Char, d.toNat < 128 → c ≠ d →
      ¬ byteAny (left ++ c :: right) (left.byteSize + k) (· == d) = true := by
    intro d hd hne
    rw [byteAny_at (ascii_beq hd) left right hk, beq_eq_false_iff_ne.2 hne, Bool.and_false]
    exact Bool.false_ne_true
  have hlt : left.byteSize + k < byteSize (left ++ c :: right) := by
    rw [byteSize_append, byteSize_cons]
    omega
  rw [breaksFrom, if_pos hlt, if_neg (hbyte _ (by decide) hcr), if_neg (hbyte _ (by decide) hlf)]

/-- A terminator that is not the first of the pair CR LF is one more, and the last so far. -/
theorem breaksFrom_terminator (left : Text) {c : Char} (hc : c = '\n' ∨ c = '\r') {right : Text}
    (hpair : ∀ tail, c = '\r' → right = '\n' :: tail → False) (count : UInt32)
    (last : Option Nat) :
    breaksFrom (left ++ c :: right) left.byteSize count last =
      (Checked.add count 1).bind fun count =>
        breaksFrom (left ++ c :: right) (left.byteSize + 1) count (some (left.byteSize + 1)) := by
  rw [breaksFrom, if_pos (byteSize_lt left _ _)]
  rcases hc with rfl | rfl
  · rw [byteAny_here left _ _ (by decide), if_neg (by decide),
      byteAny_here left _ _ (by decide), if_pos (by decide)]
  · have hnext : ¬ (List.head? right).any (· == '\n') = true := by
      intro hlf
      cases right with
      | nil => cases hlf
      | cons d tail => exact hpair tail rfl (by rw [eq_of_beq hlf])
    rw [byteAny_here left _ _ (by decide), if_pos (by decide),
      byteAny_after (ascii_beq (by decide)) left (by decide), if_neg hnext]

/-- What the walk finds in a text of `size` bytes, with so many terminators so far and those ahead. -/
def found (size : Nat) (count : UInt32) (last : Option Nat) (breaks : LineBreaks) :
    Option (UInt32 × Option Nat) :=
  (Checked.add count breaks.count).map fun count =>
    (count, (breaks.tail.map fun tail => size - tail.byteSize).or last)

/-- What the walk finds from an offset on, where `rest` is ahead. -/
def Counts (text rest : Text) (i : Nat) : Prop :=
  ∀ count last, breaksFrom text i count last =
    (Checked.lineBreaks rest).bind (found text.byteSize count last)

/-- After a terminator the walk goes on with one more, and its end is the last offset so far. -/
theorem Counts.before {left mark rest : Text} {i : Nat} (hi : byteSize (left ++ mark) = i)
    (h : Counts (left ++ mark ++ rest) rest i) (count : UInt32) (last : Option Nat) :
    ((Checked.add count 1).bind fun count => breaksFrom (left ++ mark ++ rest) i count (some i)) =
      ((Checked.lineBreaks rest).bind (Checked.before rest)).bind
        (found (byteSize (left ++ mark ++ rest)) count last) := by
  have hstop : byteSize (left ++ mark ++ rest) - rest.byteSize = i := by
    rw [byteSize_append, hi, Nat.add_sub_cancel]
  have hstep : (fun count => breaksFrom (left ++ mark ++ rest) i count (some i)) = fun count =>
      (Checked.lineBreaks rest).bind (found (byteSize (left ++ mark ++ rest)) count (some i)) :=
    funext fun count => h count (some i)
  rw [hstep]
  cases Checked.lineBreaks rest with
  | none => cases Checked.add count 1 <;> rfl
  | some breaks =>
    have hlast := offset_before breaks rest (byteSize (left ++ mark ++ rest))
    rw [hstop] at hlast
    -- the terminators before, this one and those behind it are summed from either side
    have hsum := Checked.add_bind count 1 breaks.count
    rw [Checked.add_comm 1] at hsum
    let ending (sum : UInt32) : UInt32 × Option Nat :=
      (sum, (breaks.before rest).tail.map fun tail => byteSize (left ++ mark ++ rest) - tail.byteSize)
    simp only [Option.bind_some, found, Checked.before, Option.bind_map, Function.comp_def, hlast]
    calc ((Checked.add count 1).bind fun now => (Checked.add now breaks.count).map ending)
      _ = ((Checked.add count 1).bind fun now => Checked.add now breaks.count).map ending :=
        (Option.map_bind ..).symm
      _ = ((Checked.add breaks.count 1).bind fun later => Checked.add count later).map ending := by
        rw [hsum]
      _ = (Checked.add breaks.count 1).bind fun later => (Checked.add count later).map ending :=
        Option.map_bind ..

/-- From between two characters the walk counts what is still ahead. -/
theorem counts_append (left right : Text) : Counts (left ++ right) right left.byteSize := by
  fun_induction Checked.lineBreaks right generalizing left with
  | case1 =>
    intro count last
    rw [List.append_nil, breaksFrom, if_neg (Nat.lt_irrefl _), Checked.lineBreaks, Option.bind_some,
      found, Checked.add_comm, Checked.zero_add]
    rfl
  | case2 rest ih =>
    intro count last
    have hleft : left ++ '\r' :: '\n' :: rest = left ++ ['\r', '\n'] ++ rest := by simp
    have hlater := ih (left ++ ['\r', '\n'])
    have hsize : byteSize (left ++ ['\r', '\n']) = left.byteSize + 2 := byteSize_append left _
    rw [breaksFrom, if_pos (byteSize_lt left _ _), byteAny_here left _ _ (by decide),
      if_pos (by decide), byteAny_after (ascii_beq (by decide)) left (by decide), List.head?_cons,
      if_pos (by decide), hleft, Checked.lineBreaks]
    rw [hsize] at hlater
    exact hlater.before hsize count last
  | case3 c rest hpair hline ih =>
    intro count last
    have hleft : left ++ c :: rest = left ++ [c] ++ rest := by simp
    have hc : c = '\n' ∨ c = '\r' := by simpa [isLineTerminator] using hline
    have hone : c.utf8Size = 1 := by
      rcases hc with rfl | rfl <;> rfl
    have hsize : byteSize (left ++ [c]) = left.byteSize + 1 := by
      rw [byteSize_append, byteSize_cons, byteSize_nil, hone]
    have hlater := ih (left ++ [c])
    rw [hsize] at hlater
    have hbreaks : Checked.lineBreaks (c :: rest) =
        (Checked.lineBreaks rest).bind (Checked.before rest) := by
      rw [Checked.lineBreaks, if_pos hline]
      exact hpair
    rw [breaksFrom_terminator left hc hpair, hbreaks, hleft]
    exact hlater.before hsize count last
  | case4 c rest hpair hline ih =>
    intro count last
    have hleft : left ++ c :: rest = left ++ [c] ++ rest := by simp
    have hlater := ih (left ++ [c]) count last
    have hsize : byteSize (left ++ [c]) = left.byteSize + c.utf8Size := byteSize_append left [c]
    have hbreaks : Checked.lineBreaks (c :: rest) = Checked.lineBreaks rest := by
      rw [Checked.lineBreaks, if_neg hline]
      exact hpair
    rw [breaksFrom_within left rest (by simpa using hline), hbreaks, ← hsize, hleft]
    exact hlater

/-- The walk counts the terminators as they are counted character by character, both checked. -/
theorem lineBreaks?_eq (text : Text) : text.lineBreaks? = Checked.lineBreaks text := by
  have hwalk := counts_append [] text 0 none
  rw [List.nil_append, byteSize_nil] at hwalk
  unfold lineBreaks?
  rw [hwalk]
  cases hbreaks : Checked.lineBreaks text with
  | none => rfl
  | some breaks =>
    simp only [Option.bind_some, found, Checked.zero_add, Option.map_some, Option.or_none]
    cases htail : breaks.tail with
    | none =>
      simp only [Option.map_none]
      rw [← htail]
    | some tail =>
      rw [← Checked.eq_of_lineBreaks hbreaks] at htail
      obtain ⟨before, rfl⟩ := exists_append_of_lineBreaks htail
      have hlast : byteSize (before ++ tail) - tail.byteSize = before.byteSize := by
        rw [byteSize_append, Nat.add_sub_cancel]
      simp only [Option.map_some, hlast, dropBytes?_append]
      rw [← htail, Checked.eq_of_lineBreaks hbreaks]

end EcmaLex.Text
