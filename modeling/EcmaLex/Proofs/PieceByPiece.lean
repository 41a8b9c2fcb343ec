import EcmaLex.Proofs.Location
import Mathlib.Algebra.GroupWithZero.Nat
import Mathlib.Algebra.Order.BigOperators.Group.List
import Mathlib.Algebra.Order.Group.Nat
import Mathlib.Data.Finset.Card
import Mathlib.Data.Finset.Range

/-!
# Reading piece by piece

However the beginning of a source is cut in pieces, a cursor that reads one after the other comes to the
same place and the same column as one that reads all at once. Its line is further by the number of pairs
CR LF that were cut apart: `consume_pieces`.
-/

namespace EcmaLex

namespace Cursor

/-- Moves over pieces of the given sizes, one after the other. It returns each with its span. -/
def consumeAll? (cursor : Cursor) : List Nat → Option (List (Text × Span) × Cursor)
  | [] => some ([], cursor)
  | size :: sizes => do
    let (piece, span, next) ← cursor.consume? size
    let (read, last) ← next.consumeAll? sizes
    some ((piece, span) :: read, last)

theorem consumeAll?_concat {cursor next last : Cursor} {sizes : List Nat} {size : Nat}
    {read : List (Text × Span)} {piece : Text} {span : Span}
    (h : cursor.consumeAll? sizes = some (read, next))
    (hlast : next.consume? size = some (piece, span, last)) :
    cursor.consumeAll? (sizes ++ [size]) = some (read ++ [(piece, span)], last) := by
  induction sizes generalizing cursor read with
  | nil =>
    obtain ⟨rfl, rfl⟩ := Prod.mk.inj (Option.some.inj h)
    simp [consumeAll?, hlast]
  | cons first sizes ih =>
    obtain ⟨⟨found, place, mid⟩, hfirst, hrest⟩ := Option.bind_eq_some_iff.1 h
    obtain ⟨⟨later, stop⟩, hlater, hsome⟩ := Option.bind_eq_some_iff.1 hrest
    obtain ⟨rfl, rfl⟩ := Prod.mk.inj (Option.some.inj hsome)
    simp [consumeAll?, hfirst, ih hlater]

end Cursor

instance (left right : Text) : Decidable (SplitsPair left right) :=
  inferInstanceAs (Decidable (_ ∧ _))

theorem SplitsPair.right_ne_nil {left right : Text} (h : SplitsPair left right) : right ≠ [] := by
  rintro rfl
  cases h.2

theorem splitsPair_append_iff {left right more : Text} (hne : right ≠ []) :
    SplitsPair left (right ++ more) ↔ SplitsPair left right := by
  rw [SplitsPair, SplitsPair, List.head?_append_of_ne_nil _ hne]

namespace Text

/-- The offset lies in a character, neither at its start nor at its end. -/
def InsideChar (text : Text) (offset : Nat) : Prop :=
  ∃ left c right, left ++ c :: right = text ∧ byteSize left < offset ∧
    offset < byteSize left + c.utf8Size

/-- The offsets at which the pieces are cut between a CR and its LF. -/
def pairCuts (pieces : List Text) : Finset Nat :=
  ((Finset.range (pieces.length + 1)).filter fun i =>
    SplitsPair (pieces.take i).flatten (pieces.drop i).flatten).image fun i =>
      byteSize (pieces.take i).flatten

theorem insideChar_cons {c : Char} {text : Text} {offset : Nat} (h : c.utf8Size ≤ offset) :
    InsideChar (c :: text) offset ↔ InsideChar text (offset - c.utf8Size) := by
  constructor
  · rintro ⟨left, d, right, happend, hlt, hgt⟩
    cases left with
    | nil =>
      obtain ⟨rfl, -⟩ := List.cons.inj happend
      rw [byteSize_nil] at hgt
      omega
    | cons e left =>
      obtain ⟨rfl, rfl⟩ := List.cons.inj happend
      rw [byteSize_cons] at hlt hgt
      exact ⟨left, d, right, rfl, by omega, by omega⟩
  · rintro ⟨left, d, right, rfl, hlt, hgt⟩
    refine ⟨c :: left, d, right, rfl, ?_, ?_⟩
    · rw [byteSize_cons]
      omega
    · rw [byteSize_cons]
      omega

/-- There is no cut past the end or inside a character, and every other one there is. -/
theorem splitAtByte?_eq_none_iff {n : Nat} {text : Text} :
    text.splitAtByte? n = none ↔ text.byteSize < n ∨ text.InsideChar n := by
  fun_induction splitAtByte? n text with
  | case1 text =>
    refine iff_of_false (by simp) ?_
    rintro (h | ⟨left, c, right, -, h, -⟩)
    · cases h
    · cases h
  | case2 n => exact iff_of_true rfl (.inl (Nat.succ_pos n))
  | case3 n c text hle ih =>
    rw [Option.map_eq_none_iff, ih, insideChar_cons hle, byteSize_cons]
    exact or_congr_left (by omega)
  | case4 n c text hlt =>
    exact iff_of_true rfl (.inr ⟨[], c, text, rfl, Nat.succ_pos n, by simpa using hlt⟩)

/-- Behind a piece of the text the cuts are those of what follows. -/
theorem splitAtByte?_append (done rest : Text) (n : Nat) :
    splitAtByte? (byteSize done + n) (done ++ rest) =
      (rest.splitAtByte? n).map fun (left, right) => (done ++ left, right) := by
  induction done with
  | nil => simp
  | cons c done ih =>
    have hc := c.utf8Size_pos
    obtain ⟨k, hk⟩ : ∃ k, byteSize (c :: done) + n = k + 1 :=
      ⟨byteSize (c :: done) + n - 1, by rw [byteSize_cons]; omega⟩
    rw [byteSize_cons] at hk
    have hsub : k + 1 - c.utf8Size = byteSize done + n := by omega
    rw [byteSize_cons, hk, List.cons_append, splitAtByte?, if_pos (by omega), hsub, ih,
      Option.map_map]
    rfl

theorem mem_pairCuts {pieces : List Text} {offset : Nat} :
    offset ∈ pairCuts pieces ↔ ∃ before after, before ++ after = pieces ∧
      SplitsPair before.flatten after.flatten ∧ byteSize before.flatten = offset := by
  simp only [pairCuts, Finset.mem_image, Finset.mem_filter, Finset.mem_range]
  constructor
  · rintro ⟨i, ⟨-, hsplits⟩, hoffset⟩
    exact ⟨_, _, List.take_append_drop i pieces, hsplits, hoffset⟩
  · rintro ⟨before, after, rfl, hsplits, hoffset⟩
    refine ⟨before.length, ⟨?_, ?_⟩, ?_⟩
    · rw [List.length_append]
      omega
    · rwa [List.take_left, List.drop_left]
    · rwa [List.take_left]

/-- The end of the pieces is none of the cuts between a CR and its LF. -/
theorem lt_of_mem_pairCuts {pieces : List Text} {offset : Nat} (h : offset ∈ pairCuts pieces) :
    offset < byteSize pieces.flatten := by
  obtain ⟨before, after, rfl, hsplits, rfl⟩ := mem_pairCuts.1 h
  have hpos := byteSize_pos hsplits.right_ne_nil
  rw [List.flatten_append, byteSize_append]
  omega

theorem mem_pairCuts_concat {pieces : List Text} {piece : Text} {offset : Nat} :
    offset ∈ pairCuts (pieces ++ [piece]) ↔
      offset ∈ pairCuts pieces ∨
        SplitsPair pieces.flatten piece ∧ offset = byteSize pieces.flatten := by
  constructor
  · intro h
    obtain ⟨before, after, happend, hsplits, rfl⟩ := mem_pairCuts.1 h
    obtain rfl | ⟨after, last, rfl⟩ := List.eq_nil_or_concat' after
    · exact absurd rfl hsplits.right_ne_nil
    · rw [← List.append_assoc] at happend
      obtain ⟨rfl, hlast⟩ := List.append_inj' happend rfl
      obtain rfl := (List.cons.inj hlast).1
      rw [List.flatten_append, List.flatten_singleton] at hsplits
      by_cases hnil : after.flatten = []
      · rw [hnil, List.nil_append] at hsplits
        rw [List.flatten_append, hnil, List.append_nil]
        exact .inr ⟨hsplits, rfl⟩
      · rw [splitsPair_append_iff hnil] at hsplits
        exact .inl (mem_pairCuts.2 ⟨before, after, rfl, hsplits, rfl⟩)
  · rintro (h | ⟨hsplits, rfl⟩)
    · obtain ⟨before, after, rfl, hsplits, hoffset⟩ := mem_pairCuts.1 h
      refine mem_pairCuts.2 ⟨before, after ++ [piece], (List.append_assoc _ _ _).symm, ?_, hoffset⟩
      rw [List.flatten_append]
      exact (splitsPair_append_iff hsplits.right_ne_nil).2 hsplits
    · exact mem_pairCuts.2 ⟨pieces, [piece], rfl, by rwa [List.flatten_singleton], rfl⟩

/-- One more piece cuts one more pair exactly where it begins between a CR and its LF. -/
theorem card_pairCuts_concat (pieces : List Text) (piece : Text) :
    (pairCuts (pieces ++ [piece])).card =
      (pairCuts pieces).card + if SplitsPair pieces.flatten piece then 1 else 0 := by
  by_cases hsplits : SplitsPair pieces.flatten piece
  · have hinsert : pairCuts (pieces ++ [piece]) =
        insert (byteSize pieces.flatten) (pairCuts pieces) := by
      ext offset
      rw [mem_pairCuts_concat, Finset.mem_insert, or_comm]
      exact or_congr_left (and_iff_right hsplits)
    rw [hinsert, if_pos hsplits,
      Finset.card_insert_of_notMem fun hmem => Nat.lt_irrefl _ (lt_of_mem_pairCuts hmem)]
  · have hsame : pairCuts (pieces ++ [piece]) = pairCuts pieces := by
      ext offset
      rw [mem_pairCuts_concat]
      exact or_iff_left fun h => hsplits h.1
    rw [hsame, if_neg hsplits]
    rfl

/-- The terminators of the pieces are those of the whole and one more for every pair that is cut apart. -/
theorem sum_terminators (pieces : List Text) :
    (pieces.map terminators).sum = terminators pieces.flatten + (pairCuts pieces).card := by
  induction pieces using List.reverseRecOn with
  | nil => rfl
  | append_singleton pieces piece ih =>
    have hcount : terminators (pieces.flatten ++ piece) +
        (if SplitsPair pieces.flatten piece then 1 else 0) =
          terminators pieces.flatten + terminators piece := by
      split
      · next hsplits => exact terminators_append_of_splitsPair hsplits
      · next hapart => exact terminators_append hapart
    rw [List.map_append, List.sum_append, ih, card_pairCuts_concat, List.flatten_append,
      List.flatten_singleton, List.map_singleton, List.sum_singleton]
    omega

theorem sum_terminators_le (pieces : List Text) :
    (pieces.map terminators).sum ≤ pieces.flatten.length := by
  rw [List.length_flatten]
  exact List.sum_le_sum fun piece _ => terminators_le_length piece

end Text

/-- The pieces of the source have been read, each as such, and the cursor stands after them. It has counted
the terminators of each piece on its own. -/
structure Cursor.HasRead (source : Text) (pieces : List Text) (read : List (Text × Span))
    (cursor : Cursor) : Prop where
  source_eq : cursor.source = source
  stands : cursor.StandsAfter pieces.flatten
  line_eq : cursor.location.line.toNat = 1 + (pieces.map Text.terminators).sum
  column_eq : cursor.location.column.toNat = 1 + (Text.lastLine pieces.flatten).length
  length_eq : read.length = pieces.length
  spans : ∀ {i : Nat} {piece : Text}, pieces[i]? = some piece →
    ∃ span, read[i]? = some (piece, span) ∧
      span.start = Text.byteSize (pieces.take i).flatten ∧
      span.stop = span.start + piece.byteSize

namespace Cursor

theorem hasRead_ofText (source : Text) : HasRead source [] [] (.ofText source) where
  source_eq := rfl
  stands := standsAfter_ofText source
  line_eq := rfl
  column_eq := rfl
  length_eq := rfl
  spans h := by cases h

theorem HasRead.concat {source piece rest : Text} (hsize : source.byteSize < 2 ^ 32 - 1)
    {pieces : List Text} {read : List (Text × Span)} {cursor : Cursor}
    (h : HasRead source pieces read cursor) (happend : piece ++ rest = cursor.rest) :
    HasRead source (pieces ++ [piece]) (read ++ [(piece, cursor.spanOf piece)])
      (cursor.advance piece rest) := by
  have hflatten : (pieces ++ [piece]).flatten = pieces.flatten ++ piece := by
    rw [List.flatten_append, List.flatten_singleton]
  have hlength : (pieces.flatten ++ piece).length < 2 ^ 32 - 1 := by
    have hchars := Text.length_le_byteSize source
    have hparts := congrArg List.length h.stands.source_eq
    rw [h.source_eq, ← happend, List.length_append, List.length_append] at hparts
    rw [List.length_append]
    omega
  refine ⟨h.source_eq, ?_, ?_, ?_, ?_, ?_⟩
  · rw [hflatten]
    exact h.stands.advance happend
  · have hsum : ((pieces ++ [piece]).map Text.terminators).sum =
        (pieces.map Text.terminators).sum + Text.terminators piece := by
      rw [List.map_append, List.sum_append, List.map_singleton, List.sum_singleton]
    have hle := Text.sum_terminators_le (pieces ++ [piece])
    have hline := h.line_eq
    rw [hflatten] at hle
    show (cursor.location.after piece).line.toNat = _
    rw [Location.toNat_line_after (by omega)]
    omega
  · rw [hflatten]
    exact Location.toNat_column_after h.column_eq hlength
  · rw [List.length_append, List.length_append, h.length_eq]
    rfl
  · intro i last hget
    rcases Nat.lt_trichotomy i pieces.length with hlt | rfl | hgt
    · rw [List.getElem?_append_left hlt] at hget
      rw [List.getElem?_append_left (h.length_eq ▸ hlt), List.take_append_of_le_length hlt.le]
      exact h.spans hget
    · rw [List.getElem?_concat_length] at hget
      obtain rfl := Option.some.inj hget
      refine ⟨cursor.spanOf piece, ?_, ?_, rfl⟩
      · rw [← h.length_eq, List.getElem?_concat_length]
      · rw [List.take_left]
        exact h.stands.position_eq
    · rw [List.getElem?_eq_none (by rw [List.length_append, List.length_singleton]; omega)] at hget
      cases hget

theorem StandsAfter.rest_eq {cursor : Cursor} {done rest : Text} (h : cursor.StandsAfter done)
    (happend : done ++ rest = cursor.source) : cursor.rest = rest :=
  (List.append_cancel_left (happend.trans h.source_eq)).symm

theorem exists_hasRead {source : Text} (hsize : source.byteSize < 2 ^ 32 - 1) (pieces : List Text)
    (hbegins : pieces.flatten <+: source) :
    ∃ read last, (ofText source).consumeAll? (pieces.map Text.byteSize) = some (read, last) ∧
      HasRead source pieces read last := by
  induction pieces using List.reverseRecOn with
  | nil => exact ⟨[], _, rfl, hasRead_ofText source⟩
  | append_singleton pieces piece ih =>
    obtain ⟨rest, happend⟩ := hbegins
    rw [List.flatten_append, List.flatten_singleton, List.append_assoc] at happend
    obtain ⟨read, cursor, hread, h⟩ := ih ⟨_, happend⟩
    have hahead := (h.stands.rest_eq (happend.trans h.source_eq.symm)).symm
    have hconsume : cursor.consume? piece.byteSize = _ :=
      consume?_eq_some_iff.2 ⟨rest, rfl, hahead, rfl, rfl⟩
    refine ⟨_, _, ?_, h.concat hsize hahead⟩
    rw [List.map_append]
    exact consumeAll?_concat hread hconsume

/-- What is ahead can be cut where the source can. -/
theorem StandsAfter.consume?_eq_none_iff {cursor : Cursor} {done : Text} (h : cursor.StandsAfter done)
    (size : Nat) :
    cursor.consume? size = none ↔
      cursor.source.byteSize < cursor.position + size ∨
        cursor.source.InsideChar (cursor.position + size) := by
  rw [consume?, Option.map_eq_none_iff, ← Text.splitAtByte?_eq_none_iff, h.source_eq, h.position_eq,
    Text.splitAtByte?_append, Option.map_eq_none_iff]

end Cursor

/-- However the beginning of a source is cut in pieces, each is read as such, from the offset where it
begins. All of them are read as far as at once and to the same column. The line is further by the pairs of a CR
and its LF that were cut apart. A move from there fails exactly where it would go past the end of the source
or into a character. -/
theorem consume_pieces (source : Text) (hsize : source.byteSize < 2 ^ 32 - 1) (pieces : List Text)
    (hbegins : pieces.flatten <+: source) :
    ∃ read last span whole,
      (Cursor.ofText source).consumeAll? (pieces.map Text.byteSize) = some (read, last) ∧
      (Cursor.ofText source).consume? (Text.byteSize pieces.flatten) =
        some (pieces.flatten, span, whole) ∧
      last.rest = whole.rest ∧ last.position = whole.position ∧
      last.location.column = whole.location.column ∧
      last.location.line.toNat = whole.location.line.toNat + (Text.pairCuts pieces).card ∧
      read.length = pieces.length ∧
      (∀ i piece, pieces[i]? = some piece → ∃ span, read[i]? = some (piece, span) ∧
        span.start = Text.byteSize (pieces.take i).flatten ∧
        span.stop = span.start + piece.byteSize) ∧
      ∀ size, last.consume? size = none ↔
        source.byteSize < last.position + size ∨ source.InsideChar (last.position + size) := by
  obtain ⟨read, last, hread, h⟩ := Cursor.exists_hasRead hsize pieces hbegins
  obtain ⟨rest, happend⟩ := hbegins
  have hwhole := (Cursor.hasRead_ofText source).concat hsize happend
  have hconsume : (Cursor.ofText source).consume? (Text.byteSize pieces.flatten) = _ :=
    Cursor.consume?_eq_some_iff.2 ⟨rest, rfl, happend, rfl, rfl⟩
  have hflatten : ([] ++ [pieces.flatten]).flatten = pieces.flatten := List.flatten_singleton
  have hrest : last.rest = rest := h.stands.rest_eq (happend.trans h.source_eq.symm)
  refine ⟨read, last, _, _, hread, hconsume, hrest, ?_, ?_, ?_, h.length_eq, fun _ _ => h.spans, ?_⟩
  · rw [h.stands.position_eq, hwhole.stands.position_eq, hflatten]
  · rw [← UInt32.toNat_inj, h.column_eq, hwhole.column_eq, hflatten]
  · rw [h.line_eq, hwhole.line_eq, Text.sum_terminators, ← Nat.add_assoc]
    rfl
  · intro size
    rw [h.stands.consume?_eq_none_iff, h.source_eq]

/-- The first of two pairs CR LF is cut apart, at one place by two cuts. The place after the pieces is
before a character of two bytes. -/
theorem consume_pieces_pairs :
    let pieces : List Text := [['a', '\r'], [], ['\n', 'b', '\r', '\n'], ['é']]
    let source : Text := pieces.flatten ++ ['ü']
    source.byteSize < 2 ^ 32 - 1 ∧ pieces.flatten <+: source ∧ Text.pairCuts pieces = {2} ∧
      ∃ read last span whole,
        (Cursor.ofText source).consumeAll? (pieces.map Text.byteSize) = some (read, last) ∧
        (Cursor.ofText source).consume? 8 = some (pieces.flatten, span, whole) ∧
        last.position = 8 ∧ last.location.column = whole.location.column ∧
        last.location.line.toNat = whole.location.line.toNat + 1 ∧ last.consume? 1 = none := by
  intro pieces source
  have hsize : source.byteSize < 2 ^ 32 - 1 := by decide
  have hbegins : pieces.flatten <+: source := List.prefix_append _ _
  have hcuts : Text.pairCuts pieces = {2} := by decide
  obtain ⟨read, last, span, whole, hread, hwhole, -, -, hcolumn, hline, -, -, hfails⟩ :=
    consume_pieces source hsize pieces hbegins
  have hposition : last.position = 8 := by
    have height : ((Cursor.ofText source).consumeAll? (pieces.map Text.byteSize)).map
        (fun found => found.2.position) = some 8 := by decide
    rw [hread] at height
    exact Option.some.inj height
  rw [hcuts, Finset.card_singleton] at hline
  refine ⟨hsize, hbegins, hcuts, read, last, span, whole, hread, hwhole, hposition, hcolumn, hline, ?_⟩
  rw [hfails, hposition]
  exact .inr ⟨pieces.flatten, 'ü', [], rfl, by decide, by decide⟩

end EcmaLex
