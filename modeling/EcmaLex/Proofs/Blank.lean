import EcmaLex.Proofs.Location
import EcmaLex.Proofs.Rest.Run

/-!
# A blank between two tokens

A blank put between two tokens of a source becomes a token of its own and changes nothing else: the
tokens before it are the same, and those after it have only moved, by a byte and on the line of the blank
by a column: `tokenize_insert_blank`. The one place for which this does not hold is behind a comment that
goes to the end of its line, which takes the blank in.
-/

namespace EcmaLex

/-- Only a comment that goes to the end of its line leaves a backslash at the end of the text so far. -/
theorem Lexer.Emits.getLast?_ne_backslash {lexer after : Lexer} {tokens : List Token}
    (h : Emits lexer tokens after)
    (hcomment : ∀ token, tokens.getLast? = some token → token.kind = .comment →
      ['/', '*'] <+: token.text) : (Token.texts tokens).getLast? ≠ some '\\' := by
  cases htokens : tokens.getLast? with
  | none =>
    rw [List.getLast?_eq_none_iff.1 htokens]
    exact nofun
  | some last =>
    obtain ⟨before, rfl⟩ := List.getLast?_eq_some_iff.1 htokens
    obtain ⟨now, -, hlast⟩ := h.exists_of_append
    cases hlast with
    | cons hnext _ =>
      obtain ⟨-, kind, lexeme, rest, hselect, rfl, -⟩ := next_eq_token_iff.1 hnext
      have hne : lexeme ≠ [] := (append_of_select hselect).1
      have htexts : Token.texts (before ++ [now.tokenOf kind lexeme]) =
          Token.texts before ++ lexeme := by
        rw [Token.texts_append]
        simp [Token.texts, tokenOf]
      rw [htexts, List.getLast?_append_of_ne_nil _ hne]
      exact getLast?_ne_backslash_of_select hselect fun hkind => hcomment _ htokens hkind

/-- A location one column further, if it is on the given line. -/
def Location.moved (location : Location) (line : UInt32) : Location :=
  { location with
    column := if location.line = line then location.column + 1 else location.column }

/-- A span one byte further, and on the given line also one column further. -/
def Span.moved (span : Span) (line : UInt32) : Span :=
  { start := span.start + 1
    stop := span.stop + 1
    location := span.location.moved line }

def Token.moved (token : Token) (line : UInt32) : Token :=
  { token with span := token.span.moved line }

/-- What is read from a location of the line or of a later one moves with it, as long as the count of
lines does not start over. -/
theorem Location.after_moved {location : Location} {line : UInt32} {piece : Text}
    (hline : line.toNat ≤ location.line.toNat)
    (hfits : location.line.toNat + piece.terminators < 2 ^ 32) :
    (location.moved line).after piece = (location.after piece).moved line ∧
      line.toNat ≤ (location.after piece).line.toNat := by
  unfold after
  rw [Text.lineBreaks_eq]
  by_cases hzero : piece.terminators = 0
  · simp only [if_pos hzero]
    refine ⟨?_, hline⟩
    by_cases hsame : location.line = line
    · simp only [moved, if_pos hsame, Location.mk.injEq, true_and]
      rw [UInt32.add_assoc, UInt32.add_comm 1, ← UInt32.add_assoc]
    · simp only [moved, if_neg hsame]
  · have hlines := toNat_line_add hfits
    have hother : location.line + UInt32.ofNat piece.terminators ≠ line := by
      intro heq
      rw [heq] at hlines
      omega
    simp only [if_neg hzero]
    refine ⟨?_, ?_⟩
    · simp only [moved, if_neg hother]
    · show line.toNat ≤ (location.line + UInt32.ofNat piece.terminators).toNat
      omega

namespace Lexer

/-- The lexer in a source with a blank inserted on the given line, at the same place behind it. -/
structure Moved (moved lexer : Lexer) (line : UInt32) : Prop where
  rest_eq : moved.cursor.rest = lexer.cursor.rest
  context_eq : moved.context = lexer.context
  settings_eq : moved.settings = lexer.settings
  position_eq : moved.cursor.position = lexer.cursor.position + 1
  location_eq : moved.cursor.location = lexer.cursor.location.moved line
  line_le : line.toNat ≤ lexer.cursor.location.line.toNat

theorem Moved.past {moved lexer : Lexer} {line : UInt32} (h : Moved moved lexer line)
    {kind : TokenKind} {lexeme rest : Text}
    (hfits : lexer.cursor.location.line.toNat + lexeme.terminators < 2 ^ 32) :
    Moved (moved.past kind lexeme rest) (lexer.past kind lexeme rest) line := by
  obtain ⟨-, hcontext, hsettings, hposition, hlocation, hline⟩ := h
  obtain ⟨hafter, hbehind⟩ := Location.after_moved hline hfits
  refine ⟨rfl, ?_, hsettings, ?_, ?_, hbehind⟩
  · rw [context_past, context_past, hcontext]
  · show moved.cursor.position + lexeme.byteSize = lexer.cursor.position + lexeme.byteSize + 1
    omega
  · show moved.cursor.location.after lexeme = (lexer.cursor.location.after lexeme).moved line
    rw [hlocation, hafter]

/-- Behind the blank all tokens are given again, and have moved. -/
theorem Emits.moved {source : Text} (hsize : source.byteSize < 2 ^ 32 - 1) {lexer after : Lexer}
    {before tokens : List Token} (h : Emits lexer tokens after)
    (htracks : Tracks source before lexer.cursor) {line : UInt32} {moved : Lexer}
    (hmoved : Moved moved lexer line) (hallows : moved.Allows tokens.length) :
    ∃ last, Emits moved (tokens.map (·.moved line)) last ∧
      last.cursor.rest = after.cursor.rest := by
  induction h generalizing before moved with
  | @nil lexer => exact ⟨moved, .nil, hmoved.rest_eq⟩
  | @cons lexer mid after token tokens hnext hlater ih =>
    obtain ⟨-, kind, lexeme, rest, hselect, rfl, rfl⟩ := next_eq_token_iff.1 hnext
    have hselect' : moved.selection = some { action := .emit kind, lexeme, rest } := by
      rw [selection, hmoved.rest_eq, hmoved.context_eq, hmoved.settings_eq]
      exact hselect
    have htoken : moved.tokenOf kind lexeme = (lexer.tokenOf kind lexeme).moved line := by
      simp only [tokenOf, Token.moved, Span.moved, Cursor.spanOf, hmoved.position_eq,
        hmoved.location_eq, Nat.add_right_comm]
    have hfits : lexer.cursor.location.line.toNat + lexeme.terminators < 2 ^ 32 := by
      have hlines := htracks.isAfter.line_eq
      have hbefore := Text.terminators_le_length (Token.texts before)
      have hlexeme := Text.terminators_le_length lexeme
      have hsource := congrArg List.length htracks.partition.stands.source_eq
      have hchars := Text.length_le_byteSize source
      have happend : lexeme ++ rest = lexer.cursor.rest := (append_of_select hselect).2
      rw [htracks.partition.source_eq, ← happend, List.length_append, List.length_append] at hsource
      omega
    obtain ⟨last, hlast, hrest⟩ :=
      ih (htracks.emit hsize hselect) (hmoved.past hfits) (hallows.past kind lexeme rest)
    have hall := (emits_of_selection hallows hselect').append hlast
    rw [htoken] at hall
    exact ⟨last, hall, hrest⟩

theorem byteSize_blank {blank : Char} (hblank : isBlank blank = true) :
    Text.byteSize [blank] = 1 := by
  simp only [isBlank, Bool.or_eq_true, beq_iff_eq] at hblank
  rcases hblank with ((rfl | rfl) | rfl) | rfl <;> rfl

theorem after_blank {blank : Char} (hblank : isBlank blank = true) (location : Location) :
    location.after [blank] = location.moved location.line := by
  have hzero : Text.terminators [blank] = 0 := by
    simp only [isBlank, Bool.or_eq_true, beq_iff_eq] at hblank
    rcases hblank with ((rfl | rfl) | rfl) | rfl <;> rfl
  rw [Location.after, Text.lineBreaks_eq, Location.moved]
  simp only [if_pos hzero, if_true]
  rfl

/-- A blank inserted where a lexer stands is given as a token, and moves the lexer. -/
theorem exists_emits_blank {lexer : Lexer} (hes5 : lexer.settings.edition.includes .es5 = true)
    {blank : Char} (hblank : isBlank blank = true) {source : Text} {count : Nat}
    (hallows : (lexer.reading source (blank :: lexer.cursor.rest)).Allows (count + 1)) :
    ∃ moved, Emits (lexer.reading source (blank :: lexer.cursor.rest))
        [lexer.tokenOf .whitespace [blank]] moved ∧
      Moved moved lexer lexer.cursor.location.line ∧ moved.Allows count := by
  have hselect : (lexer.reading source (blank :: lexer.cursor.rest)).selection =
      some { action := .emit .whitespace, lexeme := [blank], rest := lexer.cursor.rest } :=
    select_blank hes5 _ hblank _
  refine ⟨_, emits_of_selection hallows hselect, ⟨rfl, rfl, rfl, ?_, ?_, le_rfl⟩, hallows.past _ _ _⟩
  · show lexer.cursor.position + Text.byteSize [blank] = lexer.cursor.position + 1
    rw [byteSize_blank hblank]
  · exact after_blank hblank _

end Lexer

/-- A source that is read to its end gives the same tokens with a blank inserted between two of them, the
blank as a token of its own, and those behind it moved by the blank. No column starts over in this. -/
theorem tokenize_insert_blank {source : Text} {settings : Settings} {first last : List Token}
    {blank : Char} (hes5 : settings.edition.includes .es5 = true)
    (hsize : source.byteSize < 2 ^ 32 - 2)
    (hscan : tokenize source settings = .ok (first ++ last))
    (hlimit : (first ++ last).length < settings.iterationLimit.toNat)
    (hcomment : ∀ token, first.getLast? = some token → token.kind = .comment →
      ['/', '*'] <+: token.text)
    (hblank : isBlank blank = true) :
    Token.texts first ++ Token.texts last = source ∧
    ∃ location : Location, location.IsAfter (Token.texts first) ∧
      tokenize (Token.texts first ++ blank :: Token.texts last) settings =
        .ok (first ++
          { kind := .whitespace
            text := [blank]
            span :=
              { start := (Token.texts first).byteSize
                stop := (Token.texts first).byteSize + 1
                location } } ::
          last.map (·.moved location.line)) ∧
      ∀ token ∈ last, token.span.location.column.toNat + 1 < 2 ^ 32 := by
  obtain ⟨ended, hemits, hend⟩ := Lexer.tokenize_eq_ok_iff.1 hscan
  obtain ⟨mid, hfirst, hlast⟩ := hemits.exists_of_append
  have htracks := hfirst.tracks (show source.byteSize < 2 ^ 32 - 1 by omega)
  have hrest : mid.cursor.rest = Token.texts last := by
    rw [← hlast.texts_append, hend, List.append_nil]
  have hsource : Token.texts first ++ Token.texts last = source := by
    rw [← hrest, hfirst.texts_append]
    rfl
  have hcolumns : ∀ token ∈ last, token.span.location.column.toNat + 1 < 2 ^ 32 := by
    intro token hmem
    have hcolumn := hemits.column_le (by omega) (List.mem_append_right first hmem)
    omega
  refine ⟨hsource, mid.cursor.location, htracks.isAfter, Lexer.tokenize_eq_ok_iff.2 ?_, hcolumns⟩
  -- the tokens before the blank
  have hother := exchangeableAfter_blank hblank hcomment (hfirst.getLast?_ne_backslash hcomment)
    mid.cursor.rest
  have hagain := hfirst.exchange hes5 (Token.texts first ++ blank :: Token.texts last) hother
  rw [hrest] at hagain
  have hallows : (Lexer.ofText (Token.texts first ++ blank :: Token.texts last) settings).Allows
      (first.length + (last.length + 1)) := by
    refine ⟨rfl, ?_⟩
    rw [List.length_append] at hlimit
    show 0 + (first.length + (last.length + 1)) ≤ settings.iterationLimit.toNat
    omega
  have hleft := hagain.allows hallows
  -- the blank
  have hes5' : mid.settings.edition.includes .es5 = true := by
    rw [hfirst.settings_eq]
    exact hes5
  rw [← hrest] at hagain hleft ⊢
  obtain ⟨moved, hsingle, hmoved, hleft'⟩ := Lexer.exists_emits_blank hes5' hblank hleft
  have htoken : mid.tokenOf .whitespace [blank] =
      { kind := .whitespace
        text := [blank]
        span :=
          { start := (Token.texts first).byteSize
            stop := (Token.texts first).byteSize + 1
            location := mid.cursor.location } } := by
    rw [← htracks.partition.stands.position_eq, ← Lexer.byteSize_blank hblank]
    rfl
  rw [htoken] at hsingle
  -- the tokens behind it
  obtain ⟨later, hlater, hstop⟩ :=
    hlast.moved (show source.byteSize < 2 ^ 32 - 1 by omega) htracks hmoved hleft'
  exact ⟨later, hagain.append (hsingle.append hlater), hstop.trans hend⟩

/-- A bracket in a regular expression that opens no class, because its line ends behind it. -/
def bracketOverLine : Text := ['=', '/', '[', '/', '\n', ']']

/-- A blank behind the expression does not make the bracket open one. -/
theorem tokenize_insert_blank_bracketOverLine :
    let tokens := (Lexer.ofText bracketOverLine {}).run.tokens
    tokens.map Token.kind = [.operator, .literal, .lineEnd, .rightBracket] ∧
    ∃ location : Location, location.IsAfter (Token.texts (tokens.take 2)) ∧
      tokenize (Token.texts (tokens.take 2) ++ ' ' :: Token.texts (tokens.drop 2)) {} =
        .ok (tokens.take 2 ++
          { kind := .whitespace
            text := [' ']
            span :=
              { start := (Token.texts (tokens.take 2)).byteSize
                stop := (Token.texts (tokens.take 2)).byteSize + 1
                location } } ::
          (tokens.drop 2).map (·.moved location.line)) := by
  have hkinds : (Lexer.ofText bracketOverLine {}).run.tokens.map Token.kind =
      [.operator, .literal, .lineEnd, .rightBracket] := by decide +kernel
  generalize hrun : (Lexer.ofText bracketOverLine {}).run.tokens = tokens at hkinds ⊢
  have hscan : tokenize bracketOverLine {} = .ok (tokens.take 2 ++ tokens.drop 2) := by
    rw [List.take_append_drop]
    exact Lexer.Run.result_eq_ok_iff.2 ⟨by decide +kernel, hrun⟩
  have hlength : tokens.length = 4 := by simpa using congrArg List.length hkinds
  have hcomment : ∀ token, (tokens.take 2).getLast? = some token → token.kind = .comment →
      ['/', '*'] <+: token.text := by
    intro token hlast hkind
    have hkind' := congrArg (fun kinds => (kinds.take 2).getLast?) hkinds
    simp only [← List.map_take, List.getLast?_map, hlast, Option.map_some, hkind] at hkind'
    cases hkind'
  obtain ⟨-, location, hlocation, hinserted, -⟩ :=
    tokenize_insert_blank (by decide) (by decide) hscan
      (by rw [List.take_append_drop, hlength]; decide) hcomment
      (show isBlank ' ' = true by decide)
  exact ⟨hkinds, location, hlocation, hinserted⟩

end EcmaLex
