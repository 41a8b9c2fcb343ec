import EcmaLex.Proofs.Partition
import EcmaLex.Proofs.Rest.Select

/-!
# Tokens given again before another text

A row of tokens is given again where another text stands behind it, if that text can stand there in
place of the first one: `Emits.exchange`. A line feed and more text can stand behind code that is read
to its end, unless the code ends in a CR: `exchangeableAfter_lineFeed`. The text can always end there:
`exchangeableAfter_nil`. A blank can stand between two tokens, unless the first one is a comment that goes
to the end of its line: `exchangeableAfter_blank`.
-/

namespace EcmaLex

/-- `other` can stand behind a row of tokens in place of `rest`. -/
structure ExchangeableAfter (tokens : List Token) (rest other : Text) : Prop where
  shortens : Shortens other rest
  apart : ¬ SplitsPair (Token.texts tokens) other
  lineEnds : ∀ token, tokens.getLast? = some token → token.kind = .comment →
    ¬ ['/', '*'] <+: token.text → rest.head?.all isLineBreak = true →
      other.head?.all isLineBreak = true
  brackets : RegExp.KeepsBrackets (Token.texts tokens) rest other

theorem Token.texts_cons (token : Token) (tokens : List Token) :
    Token.texts (token :: tokens) = token.text ++ Token.texts tokens := rfl

/-- Where texts meet, only the next character is looked at. -/
theorem SplitsPair.congr {left first second : Text} (h : first.head? = second.head?) :
    SplitsPair left first ↔ SplitsPair left second := by
  rw [SplitsPair, SplitsPair, h]

namespace ExchangeableAfter

variable {token : Token} {tokens : List Token} {rest other : Text}

theorem tail (h : ExchangeableAfter (token :: tokens) rest other) :
    ExchangeableAfter tokens rest other := by
  refine ⟨h.shortens, ?_, fun last hlast => ?_, h.brackets.of_suffix (List.suffix_append _ _)⟩
  · rintro ⟨hcr, hlf⟩
    exact h.apart ⟨Matcher.getLast?_extend hcr, hlf⟩
  · refine h.lineEnds last ?_
    rw [List.getLast?_cons, hlast]
    rfl

/-- The first token of the row stands before the others. -/
theorem head (h : ExchangeableAfter (token :: tokens) rest other)
    (hnil : Token.texts tokens = [] → tokens = [])
    (hapart : ¬ SplitsPair token.text (Token.texts tokens ++ rest)) :
    Exchangeable token.kind token.text (Token.texts tokens ++ rest)
      (Token.texts tokens ++ other) := by
  refine ⟨h.shortens.append _, ?_, fun hkind hline => ?_, fun left hleft hnone => ?_⟩
  · by_cases htexts : Token.texts tokens = []
    · have happly := h.apart
      rw [Token.texts_cons, htexts, List.append_nil] at happly
      rwa [htexts]
    · rwa [SplitsPair.congr (head?_append_congr htexts other rest)]
  · by_cases htexts : Token.texts tokens = []
    · rw [htexts]
      exact h.lineEnds token (by rw [hnil htexts]; rfl) hkind hline
    · rw [head?_append_congr htexts other rest]
      exact id
  · obtain ⟨before, hbefore⟩ := hleft
    rw [← List.append_assoc] at hnone ⊢
    refine h.brackets ⟨before, ?_⟩ hnone
    rw [Token.texts_cons, ← hbefore, List.append_assoc]

end ExchangeableAfter

/-- A line feed can stand behind a row of tokens that ends the text, with anything behind it. -/
theorem exchangeableAfter_lineFeed {tokens : List Token}
    (hcr : (Token.texts tokens).getLast? ≠ some '\r') (more : Text) :
    ExchangeableAfter tokens [] ('\n' :: more) where
  shortens := shortens_gap rfl more []
  apart := fun h => hcr h.1
  lineEnds := fun _ _ _ _ _ => rfl
  brackets := RegExp.keepsBrackets_of (fun _ => rfl) (fun _ _ => rfl)

/-- The text can end behind a row of tokens. -/
theorem exchangeableAfter_nil (tokens : List Token) (rest : Text) :
    ExchangeableAfter tokens rest [] where
  shortens := shortens_of_isPrefix List.nil_prefix
  apart := fun h => Option.some_ne_none _ h.2.symm
  lineEnds := fun _ _ _ _ _ => rfl
  brackets := RegExp.keepsBrackets_of (fun _ => rfl) (fun _ _ => rfl)

theorem ne_of_isBlank {blank c : Char} (hblank : isBlank blank = true) (hc : isBlank c = false) :
    blank ≠ c := by
  rintro rfl
  rw [hblank] at hc
  cases hc

/-- A blank can stand between two tokens, unless the first one is a comment that goes to the end of its
line. Nothing else ends in a backslash, which would escape the blank. -/
theorem exchangeableAfter_blank {tokens : List Token} {blank : Char} (hblank : isBlank blank = true)
    (hcomment : ∀ token, tokens.getLast? = some token → token.kind = .comment →
      ['/', '*'] <+: token.text)
    (hslash : (Token.texts tokens).getLast? ≠ some '\\') (rest : Text) :
    ExchangeableAfter tokens rest (blank :: rest) where
  shortens := shortens_gap (by rw [isGap, hblank]; rfl) rest rest
  apart := fun h => ne_of_isBlank hblank (by decide) (Option.some.inj h.2)
  lineEnds := fun token hlast hkind hline => absurd (hcomment token hlast hkind) hline
  brackets := by
    refine RegExp.keepsBrackets_of (fun hnone => ?_) fun h => absurd h hslash
    rw [RegExp.classBody_char (ne_of_isBlank hblank (by decide)),
      if_neg (ne_of_isBlank hblank (by decide)), hnone, Option.map_none, ite_self]

namespace Lexer

/-- The lexer as it stands in another source, with another text ahead. -/
def reading (lexer : Lexer) (source rest : Text) : Lexer :=
  { lexer with cursor := { lexer.cursor with source, rest } }

theorem Emits.texts_append {lexer after : Lexer} {tokens : List Token}
    (h : Emits lexer tokens after) : Token.texts tokens ++ after.cursor.rest = lexer.cursor.rest := by
  induction h with
  | nil => rfl
  | cons hnext _ ih => rw [Token.texts_cons, List.append_assoc, ih, (append_of_next hnext).2]

theorem Emits.eq_nil_of_texts {lexer after : Lexer} {tokens : List Token}
    (h : Emits lexer tokens after) (htexts : Token.texts tokens = []) : tokens = [] := by
  cases h with
  | nil => rfl
  | cons hnext _ =>
    rw [Token.texts_cons, List.append_eq_nil_iff] at htexts
    exact absurd htexts.1 (append_of_next hnext).1

/-- A row of tokens is given again before another text that can stand behind it. -/
theorem Emits.exchange {lexer after : Lexer} {tokens : List Token} (h : Emits lexer tokens after)
    (hes5 : lexer.settings.edition.includes .es5 = true) (source : Text) {other : Text}
    (hother : ExchangeableAfter tokens after.cursor.rest other) :
    Emits (lexer.reading source (Token.texts tokens ++ other)) tokens
      (after.reading source other) := by
  induction h with
  | nil => exact .nil
  | @cons lexer mid after token tokens hnext hlater ih =>
    obtain ⟨hlive, kind, lexeme, rest, hselect, rfl, rfl⟩ := next_eq_token_iff.1 hnext
    have hrest : Token.texts tokens ++ after.cursor.rest = rest := hlater.texts_append
    have hhead := hother.head hlater.eq_nil_of_texts
      (by rw [hrest]; exact not_splitsPair_of_select hselect)
    rw [hrest] at hhead
    have hagain : (lexer.reading source (lexeme ++ (Token.texts tokens ++ other))).selection =
        some { action := .emit kind, lexeme, rest := Token.texts tokens ++ other } := by
      rw [selection, ← (append_of_select hselect).2] at hselect
      exact select_exchange hes5 hhead hselect
    have hahead := ne_nil_of_select hagain
    rw [Token.texts_cons, List.append_assoc]
    exact .cons (next_eq_token_iff.2
      ⟨⟨hlive.running, hahead, hlive.within⟩, kind, lexeme, _, hagain, rfl, rfl⟩) (ih hes5 hother.tail)

/-- Source that is read to its end gives the same tokens with a line feed and more text behind it. -/
theorem Emits.before_lineFeed {source : Text} {settings : Settings} {tokens : List Token}
    {last : Lexer} (h : Emits (ofText source settings) tokens last) (hend : last.cursor.rest = [])
    (hes5 : settings.edition.includes .es5 = true) (hcr : source.getLast? ≠ some '\r')
    (more : Text) :
    Emits (ofText (source ++ '\n' :: more) settings) tokens
      (last.reading (source ++ '\n' :: more) ('\n' :: more)) := by
  have htexts : Token.texts tokens = source := by
    have happend := h.texts_append
    rwa [hend, List.append_nil] at happend
  have hother : ExchangeableAfter tokens last.cursor.rest ('\n' :: more) := by
    rw [hend]
    exact exchangeableAfter_lineFeed (by rwa [htexts]) more
  have hagain := h.exchange hes5 (source ++ '\n' :: more) hother
  rwa [htexts] at hagain

end Lexer

theorem select_lineFeed {edition : Edition} (hes5 : edition.includes .es5 = true) (context : Context)
    (rest : Text) :
    select edition context ('\n' :: rest) =
      some { action := .emit .lineEnd, lexeme := ['\n'], rest } := by
  have hblank : Matcher.one isBlank ('\n' :: rest) = none :=
    Matcher.opensOn_one _ rest (by decide)
  have hend : Matcher.oneOf [['\r', '\n'], ['\n'], ['\r']] ('\n' :: rest) =
      some (['\n'], rest) := by
    simp [Matcher.oneOf, Matcher.exactly]
  rw [select_eq]
  simp [firstOf, blankRules, Rule.find?, Rule.applies, hes5, hblank, hend]

theorem select_blank {edition : Edition} (hes5 : edition.includes .es5 = true) (context : Context)
    {blank : Char} (hblank : isBlank blank = true) (rest : Text) :
    select edition context (blank :: rest) =
      some { action := .emit .whitespace, lexeme := [blank], rest } := by
  rw [select_eq]
  simp [firstOf, blankRules, Rule.find?, Rule.applies, hes5, Matcher.one, hblank]

end EcmaLex
