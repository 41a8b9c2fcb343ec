import EcmaLex.Proofs.LexemeEnd
import EcmaLex.Proofs.Partition

/-!
# Locations counted over the whole source

The cursor counts the line terminators of each lexeme on its own. Since no lexeme ends between a CR and
an LF, the counts add up to those of all the text before: a location is one line more than there are
terminators before it, and one column more than there are characters after the last of them,
`locations_exact`. Counters of 32 bits hold these numbers for every source below `2 ^ 32 - 1` bytes.
-/

namespace EcmaLex

/-- A location is the one right after `before`, counted over all of it. -/
structure Location.IsAfter (location : Location) (before : Text) : Prop where
  line_eq : location.line.toNat = 1 + before.terminators
  column_eq : location.column.toNat = 1 + before.lastLine.length

namespace Location

theorem isAfter_start : Location.start.IsAfter [] := ⟨rfl, rfl⟩

/-- The count of lines adds up as long as it does not start over. -/
theorem toNat_line_add {location : Location} {lines : Nat}
    (hfits : location.line.toNat + lines < 2 ^ 32) :
    (location.line + UInt32.ofNat lines).toNat = location.line.toNat + lines := by
  have hsize : lines < UInt32.size := by
    show lines < 2 ^ 32
    omega
  rw [UInt32.toNat_add, UInt32.toNat_ofNat_of_lt' hsize]
  exact Nat.mod_eq_of_lt hfits

/-- Reading a piece counts the terminators of the piece alone. -/
theorem toNat_line_after {location : Location} {piece : Text}
    (hfits : location.line.toNat + piece.terminators < 2 ^ 32) :
    (location.after piece).line.toNat = location.line.toNat + piece.terminators := by
  unfold Location.after
  rw [Text.lineBreaks_eq]
  by_cases hzero : piece.terminators = 0
  · simp only [if_pos hzero]
    show location.line.toNat = _
    omega
  · simp only [if_neg hzero]
    exact toNat_line_add hfits

/-- However the text is cut in pieces, the column is counted from the last terminator before. -/
theorem toNat_column_after {location : Location} {before piece : Text}
    (hcolumn : location.column.toNat = 1 + before.lastLine.length)
    (hsize : (before ++ piece).length < 2 ^ 32 - 1) :
    (location.after piece).column.toNat = 1 + (before ++ piece).lastLine.length := by
  rw [List.length_append] at hsize
  unfold Location.after
  rw [Text.lineBreaks_eq]
  by_cases hzero : piece.terminators = 0
  · have hlast := congrArg List.length (@Text.lastLine_append_of_eq_zero before piece hzero)
    have hbefore := Text.length_lastLine_le before
    have hchars := @Text.toNat_charCount piece (by omega)
    rw [List.length_append] at hlast
    simp only [if_pos hzero]
    show (location.column + piece.charCount).toNat = _
    rw [UInt32.toNat_add, hchars, hcolumn, Nat.mod_eq_of_lt (by omega)]
    omega
  · have hlast := congrArg List.length (@Text.lastLine_append_of_ne_zero before piece hzero)
    have hpiece := Text.length_lastLine_le piece
    have hchars := @Text.toNat_charCount piece.lastLine (by omega)
    have hone : (1 : UInt32).toNat = 1 := rfl
    simp only [if_neg hzero]
    show (piece.lastLine.charCount + 1).toNat = _
    rw [UInt32.toNat_add, hchars, hone, Nat.mod_eq_of_lt (by omega)]
    omega

/-- Reading one more piece keeps the count, unless the piece begins between a CR and an LF. -/
theorem IsAfter.after {location : Location} {before piece : Text} (h : location.IsAfter before)
    (hapart : ¬ SplitsPair before piece) (hsize : (before ++ piece).length < 2 ^ 32 - 1) :
    (location.after piece).IsAfter (before ++ piece) := by
  have hline := h.line_eq
  have hcount := Text.terminators_append hapart
  have hlines := Text.terminators_le_length (before ++ piece)
  refine ⟨?_, toNat_column_after h.column_eq hsize⟩
  rw [toNat_line_after (by omega)]
  omega

end Location

/-- Text that is not empty keeps what is before it apart from what is after. -/
theorem not_splitsPair_append {before lexeme rest : Text} (hne : lexeme ≠ [])
    (h : ¬ SplitsPair lexeme rest) : ¬ SplitsPair (before ++ lexeme) rest := by
  rintro ⟨hcr, hlf⟩
  rw [List.getLast?_append_of_ne_nil _ hne] at hcr
  exact h ⟨hcr, hlf⟩

theorem not_splitsPair_of_append {before lexeme rest : Text} (hne : lexeme ≠ [])
    (h : ¬ SplitsPair before (lexeme ++ rest)) : ¬ SplitsPair before lexeme := by
  rintro ⟨hcr, hlf⟩
  obtain ⟨c, tail, rfl⟩ := List.exists_cons_of_ne_nil hne
  exact h ⟨hcr, hlf⟩

/-- The cursor has read the tokens so far, has counted their texts as a whole, and does not stand
between a CR and an LF. -/
structure Tracks (source : Text) (tokens : List Token) (cursor : Cursor) : Prop where
  partition : Partition source tokens cursor
  isAfter : cursor.location.IsAfter (Token.texts tokens)
  apart : ¬ SplitsPair (Token.texts tokens) cursor.rest

namespace Tracks

variable {source : Text} {tokens : List Token}

theorem ofText (source : Text) : Tracks source [] (.ofText source) :=
  ⟨partition_ofText source, Location.isAfter_start, not_splitsPair_nil _⟩

theorem emit (hsize : source.byteSize < 2 ^ 32 - 1) {lexer : Lexer} {kind : TokenKind}
    {lexeme rest : Text} (h : Tracks source tokens lexer.cursor)
    (hselect : lexer.selection = some { action := .emit kind, lexeme, rest }) :
    Tracks source (tokens ++ [lexer.tokenOf kind lexeme]) (lexer.cursor.advance lexeme rest) := by
  obtain ⟨hne, happend⟩ := append_of_select hselect
  have htexts : Token.texts (tokens ++ [lexer.tokenOf kind lexeme]) = Token.texts tokens ++ lexeme := by
    rw [Token.texts_append]
    simp [Token.texts, Lexer.tokenOf]
  have hsource : source = Token.texts tokens ++ lexeme ++ rest := by
    rw [List.append_assoc, happend, ← h.partition.stands.source_eq, h.partition.source_eq]
  have hlength : (Token.texts tokens ++ lexeme).length < 2 ^ 32 - 1 := by
    have hchars := Text.length_le_byteSize source
    have hparts := congrArg List.length hsource
    rw [List.length_append] at hparts
    omega
  have hbefore : ¬ SplitsPair (Token.texts tokens) lexeme :=
    not_splitsPair_of_append hne (by rw [happend]; exact h.apart)
  refine ⟨h.partition.emit hselect, ?_, ?_⟩
  · rw [htexts]
    exact h.isAfter.after hbefore hlength
  · rw [htexts]
    exact not_splitsPair_append hne (not_splitsPair_of_select hselect)

/-- Where a cursor stands, the source can be cut. -/
theorem splitAtByte? {cursor : Cursor} (h : Tracks source tokens cursor) :
    source.splitAtByte? cursor.position = some (Token.texts tokens, cursor.rest) := by
  rw [← h.partition.source_eq, h.partition.stands.source_eq, h.partition.stands.position_eq]
  exact Text.splitAtByte?_byteSize_append _ _

end Tracks

theorem tracks_calls {source : Text} (settings : Settings) (hsize : source.byteSize < 2 ^ 32 - 1)
    (n : Nat) :
    Tracks source ((Lexer.ofText source settings).calls n).1
      ((Lexer.ofText source settings).calls n).2.cursor :=
  Lexer.calls_induction (P := fun tokens cursor _ => Tracks source tokens cursor)
    (Tracks.ofText source) (fun htracks _ hselect => htracks.emit hsize hselect) n

theorem Lexer.Emits.tracks {source : Text} {settings : Settings} {tokens : List Token}
    {after : Lexer} (hsize : source.byteSize < 2 ^ 32 - 1)
    (h : Emits (ofText source settings) tokens after) : Tracks source tokens after.cursor := by
  have hcalls := tracks_calls settings hsize tokens.length
  rwa [h.calls_length] at hcalls

/-- No column is further than the source is long. -/
theorem Lexer.Emits.column_le {source : Text} {settings : Settings} {tokens : List Token}
    {after : Lexer} (hsize : source.byteSize < 2 ^ 32 - 1)
    (h : Emits (ofText source settings) tokens after) {token : Token} (hmem : token ∈ tokens) :
    token.span.location.column.toNat ≤ 1 + source.byteSize := by
  obtain ⟨before, later, rfl⟩ := List.append_of_mem hmem
  obtain ⟨now, hbefore, hlater⟩ := h.exists_of_append
  cases hlater with
  | cons hnext _ =>
    have htracks := hbefore.tracks hsize
    obtain ⟨-, kind, lexeme, rest, -, rfl, -⟩ := next_eq_token_iff.1 hnext
    have hcolumn : now.cursor.location.column.toNat = _ := htracks.isAfter.column_eq
    have hlast := Text.length_lastLine_le (Token.texts before)
    have hsource := congrArg List.length htracks.partition.stands.source_eq
    have hchars := Text.length_le_byteSize source
    rw [htracks.partition.source_eq, List.length_append] at hsource
    show now.cursor.location.column.toNat ≤ _
    omega

/-- Every fault is found where the cursor stands. -/
theorem Lexer.span_of_next_error {lexer after : Lexer} {fault : Fault}
    (h : lexer.next = (some (.error fault), after)) :
    fault.span.start = lexer.cursor.position ∧ fault.span.location = lexer.cursor.location := by
  cases call_of_next h with
  | limited => exact ⟨rfl, rfl⟩
  | unrecognized => exact ⟨rfl, rfl⟩
  | @failed _ diagnosis => cases diagnosis <;> exact ⟨rfl, rfl⟩

/-- The location of a span is counted over all of the source before it. -/
def Span.IsExact (span : Span) (source : Text) : Prop :=
  ∃ before after, source.splitAtByte? span.start = some (before, after) ∧
    span.location.IsAfter before

/-- A character ends at the offset, and no CR stands before it with its LF behind it. -/
def Text.KeepsPairAt (source : Text) (offset : Nat) : Prop :=
  ∃ before after, source.splitAtByte? offset = some (before, after) ∧ ¬ SplitsPair before after

/-- The location of every token of a run, and of the fault that ends it, is the one counted over the
whole source before it, and no token begins or ends between a CR and its LF. -/
theorem locations_exact (source : Text) (settings : Settings) (hsize : source.byteSize < 2 ^ 32 - 1) :
    (∀ token ∈ (Lexer.ofText source settings).run.tokens,
      token.span.IsExact source ∧ source.KeepsPairAt token.span.start ∧
        source.KeepsPairAt token.span.stop) ∧
    ∀ fault, (Lexer.ofText source settings).run.fault = some fault →
      fault.span.IsExact source ∧ source.KeepsPairAt fault.span.start := by
  constructor
  · intro token hmem
    obtain ⟨before, later, hsplit⟩ := List.append_of_mem hmem
    obtain ⟨now, after, hemits, hnext⟩ := Lexer.exists_emits_of_run hsplit
    have hnow := hemits.tracks hsize
    have hafter := (hemits.append (Lexer.emits_singleton hnext)).tracks hsize
    obtain ⟨-, kind, lexeme, rest, -, rfl, rfl⟩ := Lexer.next_eq_token_iff.1 hnext
    exact ⟨⟨_, _, hnow.splitAtByte?, hnow.isAfter⟩, ⟨_, _, hnow.splitAtByte?, hnow.apart⟩,
      ⟨_, _, hafter.splitAtByte?, hafter.apart⟩⟩
  · intro fault hfault
    obtain ⟨now, hemits, hnext⟩ := Lexer.exists_emits_of_fault hfault
    have hnow := hemits.tracks hsize
    obtain ⟨hstart, hlocation⟩ := Lexer.span_of_next_error hnext
    rw [Span.IsExact, Text.KeepsPairAt, hstart, hlocation]
    exact ⟨⟨_, _, hnow.splitAtByte?, hnow.isAfter⟩, ⟨_, _, hnow.splitAtByte?, hnow.apart⟩⟩

/-- A template over two lines, with a pair CR LF before it and one in it, and a fault behind it. -/
def templateOverLines : Text :=
  ['a', '\r', '\n', Template.backquote, 'é', '\r', '\n', 'b', Template.backquote, '#']

theorem locations_exact_templateOverLines :
    templateOverLines.byteSize < 2 ^ 32 - 1 ∧
    (∀ token ∈ (Lexer.ofText templateOverLines { edition := .es2015 }).run.tokens,
      token.span.IsExact templateOverLines ∧ templateOverLines.KeepsPairAt token.span.start ∧
        templateOverLines.KeepsPairAt token.span.stop) ∧
    (Lexer.ofText templateOverLines { edition := .es2015 }).run.tokens.map (·.span.location) =
      [⟨1, 1⟩, ⟨1, 2⟩, ⟨2, 1⟩] ∧
    (Lexer.ofText templateOverLines { edition := .es2015 }).run.fault.map Fault.location =
      some ⟨3, 3⟩ :=
  ⟨by decide, (locations_exact templateOverLines { edition := .es2015 } (by decide)).1,
    by decide +kernel, by decide +kernel⟩

end EcmaLex
