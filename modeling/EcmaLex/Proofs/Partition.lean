import EcmaLex.Proofs.Run

/-!
# Tokens tile the source

After any number of calls the tokens given so far lie end to end from the start of the source to the
cursor, none is empty, and each is spelled as the source is between its two offsets. The invariant is
that the cursor stands after the texts of the tokens: `Cursor.StandsAfter`.
-/

namespace EcmaLex

/-- The piece of a text between two byte offsets, if characters end at both. -/
def Text.slice? (text : Text) (start stop : Nat) : Option Text :=
  match text.splitAtByte? start with
  | some (_, rest) => (rest.splitAtByte? (stop - start)).map Prod.fst
  | none => none

theorem Text.slice?_append (left piece right : Text) :
    (left ++ (piece ++ right)).slice? left.byteSize (left.byteSize + piece.byteSize) =
      some piece := by
  have hsize : left.byteSize + piece.byteSize - left.byteSize = piece.byteSize := by omega
  rw [slice?, splitAtByte?_byteSize_append]
  simp only [hsize, splitAtByte?_byteSize_append, Option.map_some]

/-- The texts of tokens, put together. -/
def Token.texts (tokens : List Token) : Text :=
  (tokens.map Token.text).flatten

theorem Token.texts_append (first last : List Token) :
    Token.texts (first ++ last) = Token.texts first ++ Token.texts last := by
  simp [Token.texts]

/-- The cursor has read `done`, and what is ahead is the rest of its source. -/
structure Cursor.StandsAfter (cursor : Cursor) (done : Text) : Prop where
  source_eq : cursor.source = done ++ cursor.rest
  position_eq : cursor.position = done.byteSize

theorem Cursor.standsAfter_ofText (source : Text) : (Cursor.ofText source).StandsAfter [] :=
  ⟨rfl, rfl⟩

theorem Cursor.StandsAfter.advance {cursor : Cursor} {done lexeme rest : Text}
    (h : cursor.StandsAfter done) (happend : lexeme ++ rest = cursor.rest) :
    (cursor.advance lexeme rest).StandsAfter (done ++ lexeme) := by
  constructor
  · show cursor.source = done ++ lexeme ++ rest
    rw [h.source_eq, List.append_assoc, happend]
  · show cursor.position + lexeme.byteSize = (done ++ lexeme).byteSize
    rw [h.position_eq, Text.byteSize_append]

/-- What is ahead ends with the source. -/
theorem Cursor.StandsAfter.byteSize_eq {cursor : Cursor} {done : Text} (h : cursor.StandsAfter done) :
    cursor.source.byteSize = cursor.position + cursor.rest.byteSize := by
  rw [h.source_eq, h.position_eq, Text.byteSize_append]

/-- A piece at the start of what is ahead is the piece of the source there. -/
theorem Cursor.StandsAfter.slice?_eq {cursor : Cursor} {done piece rest : Text}
    (h : cursor.StandsAfter done) (happend : piece ++ rest = cursor.rest) :
    cursor.source.slice? cursor.position (cursor.position + Text.byteSize piece) = some piece := by
  rw [h.source_eq, ← happend, h.position_eq]
  exact Text.slice?_append _ _ _

/-- Tokens that lie end to end from one offset of a source to another, none of them empty, each
spelled as the source is there. -/
def Tiles (source : Text) : Nat → List Token → Nat → Prop
  | start, [], stop => start = stop
  | start, token :: tokens, stop =>
    token.span.start = start ∧ token.span.start < token.span.stop ∧
      source.slice? token.span.start token.span.stop = some token.text ∧
        Tiles source token.span.stop tokens stop

theorem Tiles.concat {source : Text} {start mid : Nat} {tokens : List Token} {token : Token}
    (h : Tiles source start tokens mid) (hstart : token.span.start = mid)
    (hsize : token.span.start < token.span.stop)
    (htext : source.slice? token.span.start token.span.stop = some token.text) :
    Tiles source start (tokens ++ [token]) token.span.stop := by
  induction tokens generalizing start with
  | nil =>
    have hmid : start = mid := h
    exact ⟨hstart.trans hmid.symm, hsize, htext, rfl⟩
  | cons first tokens ih =>
    obtain ⟨hfirst, hpos, hspell, hlater⟩ := h
    exact ⟨hfirst, hpos, hspell, ih hlater⟩

/-- Where the cursor stands, and that the tokens so far fill the source up to there. -/
structure Partition (source : Text) (tokens : List Token) (cursor : Cursor) : Prop where
  source_eq : cursor.source = source
  stands : cursor.StandsAfter (Token.texts tokens)
  tiles : Tiles source 0 tokens cursor.position

theorem partition_ofText (source : Text) : Partition source [] (.ofText source) :=
  ⟨rfl, Cursor.standsAfter_ofText source, rfl⟩

theorem Partition.emit {source : Text} {tokens : List Token} {lexer : Lexer} {kind : TokenKind}
    {lexeme rest : Text} (h : Partition source tokens lexer.cursor)
    (hselect : lexer.selection = some { action := .emit kind, lexeme, rest }) :
    Partition source (tokens ++ [lexer.tokenOf kind lexeme]) (lexer.cursor.advance lexeme rest) := by
  obtain ⟨hne, happend⟩ := append_of_select hselect
  have hstands := h.stands.advance happend
  have hpos : 0 < lexeme.byteSize := Text.byteSize_pos hne
  have htext : source.slice? lexer.cursor.position (lexer.cursor.position + lexeme.byteSize) =
      some lexeme := by
    rw [← h.source_eq]
    exact h.stands.slice?_eq happend
  refine ⟨h.source_eq, ?_, ?_⟩
  · rw [Token.texts_append]
    simpa [Token.texts, Lexer.tokenOf] using hstands
  · have hsize : lexer.cursor.position < lexer.cursor.position + lexeme.byteSize := by omega
    exact h.tiles.concat rfl hsize htext

theorem partition_calls (source : Text) (settings : Settings) (n : Nat) :
    Partition source ((Lexer.ofText source settings).calls n).1
      ((Lexer.ofText source settings).calls n).2.cursor :=
  Lexer.calls_induction (P := fun tokens cursor _ => Partition source tokens cursor)
    (partition_ofText source) (fun h _ hselect => h.emit hselect) n

/-- After a row of tokens the cursor stands where they end. -/
theorem Lexer.Emits.partition {source : Text} {settings : Settings} {tokens : List Token}
    {after : Lexer} (h : Emits (ofText source settings) tokens after) :
    Partition source tokens after.cursor := by
  have hcalls := partition_calls source settings tokens.length
  rwa [h.calls_length] at hcalls

theorem texts_of_tokenize {source : Text} {settings : Settings} {tokens : List Token}
    (h : tokenize source settings = .ok tokens) : Token.texts tokens = source := by
  obtain ⟨last, hemits, hrest⟩ := Lexer.tokenize_eq_ok_iff.1 h
  have hsource := hemits.partition.stands.source_eq
  rw [hrest, List.append_nil, hemits.partition.source_eq] at hsource
  exact hsource.symm

/-- Whatever is called how often, the tokens so far tile the source up to the cursor. A source that
is read to its end without fault is the texts of its tokens. -/
theorem tokens_tile_source (source : Text) (settings : Settings) :
    (∀ n, Tiles source 0 ((Lexer.ofText source settings).calls n).1
      ((Lexer.ofText source settings).calls n).2.cursor.position) ∧
    ∀ tokens, tokenize source settings = .ok tokens → (tokens.map Token.text).flatten = source :=
  ⟨fun n => (partition_calls source settings n).tiles, fun _ h => texts_of_tokenize h⟩

/-- A string of three characters and four bytes. -/
theorem tokens_tile_source_string :
    let string : Text := [Quotation.doubleQuote, 'é', Quotation.doubleQuote]
    let tokens : List Token := [⟨.literal, string, ⟨0, 4, ⟨1, 1⟩⟩⟩, ⟨.semicolon, [';'], ⟨4, 5, ⟨1, 4⟩⟩⟩]
    let source : Text := string ++ [';']
    tokenize source {} = .ok tokens ∧ (tokens.map Token.text).flatten = source ∧
      Tiles source 0 ((Lexer.ofText source {}).calls 1).1
        ((Lexer.ofText source {}).calls 1).2.cursor.position := by
  intro string tokens source
  have hok : tokenize source {} = .ok tokens :=
    Lexer.Run.result_eq_ok_iff.2 ⟨by decide +kernel, by decide +kernel⟩
  obtain ⟨htiles, htexts⟩ := tokens_tile_source source {}
  exact ⟨hok, htexts tokens hok, htiles 1⟩

end EcmaLex
