import EcmaLex.Proofs.Introduced
import EcmaLex.Proofs.Rest.Run

/-!
# Scanning a prefix

A source cut where one of its tokens ends can be scanned by itself, and gives the tokens up to there, also
where the scan of the whole source stops at a fault further on: `tokenize_prefix`. No token depends on the
text behind it in a way that the end of the text there would change.
-/

namespace EcmaLex

namespace Lexer

/-- Where the source ends behind a row of tokens, the row is all there is to read. -/
theorem Emits.tokenize_texts {source : Text} {settings : Settings} {tokens : List Token}
    {after : Lexer} (h : Emits (ofText source settings) tokens after)
    (hes5 : settings.edition.includes .es5 = true) :
    EcmaLex.tokenize (Token.texts tokens) settings = .ok tokens := by
  have hagain := h.exchange hes5 (Token.texts tokens) (exchangeableAfter_nil tokens _)
  rw [List.append_nil] at hagain
  exact tokenize_eq_ok_iff.2 ⟨_, hagain, rfl⟩

/-- A row of tokens is spelled as its source is up to where the lexer stands after it. -/
theorem Emits.slice?_position {source : Text} {settings : Settings} {tokens : List Token}
    {after : Lexer} (h : Emits (ofText source settings) tokens after) :
    source.slice? 0 after.cursor.position = some (Token.texts tokens) := by
  have hsource := h.partition.stands.source_eq
  rw [h.partition.source_eq] at hsource
  have hslice := Text.slice?_append [] (Token.texts tokens) after.cursor.rest
  rwa [Text.byteSize_nil, Nat.zero_add, List.nil_append, ← hsource,
    ← h.partition.stands.position_eq] at hslice

end Lexer

/-- The source up to the end of any of its tokens can be scanned by itself and gives the tokens up to that
one, whether or not the scan of the whole source comes upon a fault later. -/
theorem tokenize_prefix {source : Text} {settings : Settings} {before later : List Token}
    {token : Token}
    (hrun : (Lexer.ofText source settings).run.tokens = before ++ token :: later) :
    ∃ piece, source.slice? 0 token.span.stop = some piece ∧
      tokenize piece settings = .ok (before ++ [token]) := by
  obtain ⟨now, after, hbefore, hnext⟩ := Lexer.exists_emits_of_run hrun
  have hemits := hbefore.append (Lexer.emits_singleton hnext)
  obtain ⟨-, kind, lexeme, rest, hselect, rfl, rfl⟩ := Lexer.next_eq_token_iff.1 hnext
  have hes5 : settings.edition.includes .es5 = true := by
    have hincludes := includes_es5_of_select hselect
    rwa [hbefore.settings_eq] at hincludes
  exact ⟨_, hemits.slice?_position, hemits.tokenize_texts hes5⟩

/-- A regular expression on the second line, and then a quotation that does not end. -/
def unfinishedQuotation : Text :=
  ['=', '\r', '\n', '/', '[', '/', ']', '/', 'g', ' ', Quotation.singleQuote, 'y']

/-- The whole source stops at the quotation. Up to the regular expression it is read to its end. -/
theorem tokenize_prefix_unfinishedQuotation :
    let before : List Token :=
      [⟨.operator, ['='], ⟨0, 1, ⟨1, 1⟩⟩⟩, ⟨.lineEnd, ['\r', '\n'], ⟨1, 3, ⟨1, 2⟩⟩⟩]
    let literal : Token := ⟨.literal, ['/', '[', '/', ']', '/', 'g'], ⟨3, 9, ⟨2, 1⟩⟩⟩
    let blank : Token := ⟨.whitespace, [' '], ⟨9, 10, ⟨2, 7⟩⟩⟩
    let run := (Lexer.ofText unfinishedQuotation {}).run
    run.fault = some (.unfinished .string ⟨10, 12, ⟨2, 8⟩⟩) ∧
    run.tokens = before ++ literal :: [blank] ∧
    ∃ piece, unfinishedQuotation.slice? 0 9 = some piece ∧
      tokenize piece {} = .ok (before ++ [literal]) := by
  intro before literal blank run
  have hrun : run.tokens = before ++ literal :: [blank] := by decide +kernel
  exact ⟨by decide +kernel, hrun, tokenize_prefix hrun⟩

end EcmaLex
