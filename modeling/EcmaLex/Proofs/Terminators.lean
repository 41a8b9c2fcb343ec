import EcmaLex.Proofs.LineStart
import EcmaLex.Proofs.Offset.Basic
import EcmaLex.Proofs.Quotation

/-!
# Where line terminators stand

A token that holds a line terminator is a line end, a block comment, a piece of a template or a string in
which the terminator is escaped. So every other terminator of a source is a token of its own, and a comment
of another form goes just up to the end of its line: `terminators_placed`.
-/

namespace EcmaLex

open Matcher

/-- The backslashes at the end of the text are odd in number, so the last of them escapes what follows. -/
def Text.Escapes (text : Text) : Prop :=
  (text.rtakeWhile (· == '\\')).length % 2 = 1

/-- Every LF and CR of the text is escaped, or is the LF behind an escaped CR. -/
def Text.EscapesTerminators (text : Text) : Prop :=
  ∀ left c right, left ++ c :: right = text → isLineTerminator c = true →
    left.Escapes ∨ c = '\n' ∧ ∃ before : Text, left = before ++ ['\r'] ∧ before.Escapes

/-- A CR LF, an LF, or a CR that no LF follows in the rest of the source. -/
inductive IsLineEnd (rest : Text) : Text → Prop where
  | pair : IsLineEnd rest ['\r', '\n']
  | lineFeed : IsLineEnd rest ['\n']
  | carriageReturn (h : rest.head? ≠ some '\n') : IsLineEnd rest ['\r']

/-- What follows the opening of a block comment is closed, and not before its end. -/
structure Comment.ClosesAtEnd (later : Text) : Prop where
  closes : ['*', '/'] <:+ later
  notBefore : ∀ left right, left ++ '*' :: '/' :: right = later → right = []

def templateKinds : List TokenKind :=
  [.template, .templateStart, .templateMiddle, .templateEnd]

/-- The forms of token in which a line terminator does not count as the end of a line. -/
inductive HidesTerminators : TokenKind → Text → Prop where
  | comment {text : Text} (h : ['/', '*'] <+: text) : HidesTerminators .comment text
  | template {kind : TokenKind} (text : Text) (h : kind ∈ templateKinds) : HidesTerminators kind text
  | string {quote : Char} {later : Text} (hquote : opensQuotation quote = true)
      (h : Text.EscapesTerminators (quote :: later)) : HidesTerminators .literal (quote :: later)

/-- What a token with the rest of the source behind it has to do with the ends of lines. -/
structure RespectsLines (kind : TokenKind) (text rest : Text) : Prop where
  placed : (∃ c ∈ text, isLineTerminator c = true) →
    kind = .lineEnd ∧ IsLineEnd rest text ∨ HidesTerminators kind text
  lineComment : kind = .comment → ¬ ['/', '*'] <+: text →
    (∀ c ∈ text, isLineBreak c = false) ∧ rest.head?.all isLineBreak = true
  blockComment : kind = .comment → ∀ later, '/' :: '*' :: later = text → Comment.ClosesAtEnd later

namespace Text

/-- Nothing before another character matters to what a backslash escapes. -/
theorem escapes_append_cons {c : Char} (hc : c ≠ '\\') (read text : Text) :
    Escapes (read ++ c :: text) ↔ Escapes text := by
  have hrun : (read ++ c :: text).rtakeWhile (· == '\\') = text.rtakeWhile (· == '\\') := by
    rw [List.rtakeWhile, List.rtakeWhile, List.reverse_append, List.reverse_cons, List.append_assoc,
      List.takeWhile_append]
    split
    · next hall =>
      rw [(List.takeWhile_prefix _).eq_of_length hall]
      simp [hc]
    · rfl
  rw [Escapes, Escapes, hrun]

/-- An escaped backslash escapes nothing. -/
theorem escapes_backslashes (text : Text) : Escapes ('\\' :: '\\' :: text) ↔ Escapes text := by
  rw [Escapes, Escapes, List.rtakeWhile, List.rtakeWhile, List.reverse_cons, List.reverse_cons,
    List.append_assoc, List.takeWhile_append]
  split
  · next hall =>
    rw [(List.takeWhile_prefix _).eq_of_length hall]
    simp only [List.cons_append, List.nil_append, List.takeWhile_cons, beq_self_eq_true, if_true,
      List.takeWhile_nil, List.reverse_reverse, List.length_reverse, List.length_append,
      List.length_cons, List.length_nil]
    omega
  · rfl

/-- A text in front that leaves open no escape changes nothing in what is escaped behind it. -/
theorem EscapesTerminators.append {read text : Text} (hread : read.EscapesTerminators)
    (hclosed : ∀ left : Text, Escapes (read ++ left) ↔ Escapes left)
    (h : text.EscapesTerminators) : EscapesTerminators (read ++ text) := by
  have hbehind : ∀ left c right, left ++ c :: right = text → isLineTerminator c = true →
      Escapes (read ++ left) ∨
        c = '\n' ∧ ∃ before, read ++ left = before ++ ['\r'] ∧ Escapes before := by
    intro left c right happend hc
    obtain hescapes | ⟨hlf, before, rfl, hescapes⟩ := h left c right happend hc
    · exact .inl ((hclosed left).2 hescapes)
    · exact .inr ⟨hlf, read ++ before, (List.append_assoc _ _ _).symm, (hclosed before).2 hescapes⟩
  intro left c right happend hc
  obtain ⟨middle, rfl, htext⟩ | ⟨left, rfl, htext⟩ := List.append_eq_append_iff.1 happend
  · cases middle with
    | nil => simpa only [List.append_nil] using hbehind [] c right htext hc
    | cons d middle =>
      obtain ⟨rfl, -⟩ := List.cons.inj htext
      exact hread left c middle rfl hc
  · exact hbehind left c right htext.symm hc

theorem escapesTerminators_plain {c : Char} (h : isLineTerminator c = false) :
    EscapesTerminators [c] := by
  intro left d right happend hd
  have hmem : d ∈ [c] := by
    rw [← happend]
    simp
  rw [List.mem_singleton.1 hmem, h] at hd
  cases hd

theorem escapesTerminators_escape (c : Char) : EscapesTerminators ['\\', c] := by
  intro left d right happend hd
  match left, happend with
  | [], happend =>
    rw [(List.cons.inj happend).1] at hd
    cases hd
  | [e], happend =>
    obtain ⟨rfl, -⟩ := List.cons.inj happend
    exact .inl rfl
  | e :: f :: left, happend => simp at happend

theorem escapesTerminators_pair : EscapesTerminators ['\\', '\r', '\n'] := by
  intro left d right happend hd
  match left, happend with
  | [], happend =>
    rw [(List.cons.inj happend).1] at hd
    cases hd
  | [e], happend =>
    obtain ⟨rfl, -⟩ := List.cons.inj happend
    exact .inl rfl
  | [e, f], happend =>
    simp only [List.cons_append, List.nil_append, List.cons.injEq] at happend
    obtain ⟨rfl, rfl, rfl, -⟩ := happend
    exact .inr ⟨rfl, ['\\'], rfl, rfl⟩
  | e :: f :: g :: left, happend => simp at happend

end Text

namespace Quotation

open Text

theorem isLineTerminator_of_opens {quote : Char} (h : opensQuotation quote = true) :
    isLineTerminator quote = false := by
  simp only [opensQuotation, Bool.or_eq_true, beq_iff_eq] at h
  rcases h with rfl | rfl <;> rfl

theorem Closes.escapesTerminators {quote : Char} (hquote : opensQuotation quote = true)
    {later : Text} (h : Closes quote later) : later.EscapesTerminators := by
  induction h with
  | close => exact escapesTerminators_plain (isLineTerminator_of_opens hquote)
  | pair _ ih =>
    exact escapesTerminators_pair.append (escapes_append_cons (by decide) ['\\', '\r']) ih
  | @escaped c later _ _ ih =>
    refine (escapesTerminators_escape c).append (fun left => ?_) ih
    by_cases hc : c = '\\'
    · rw [hc]
      exact escapes_backslashes left
    · exact escapes_append_cons hc ['\\'] left
  | plain _ hescape hline _ ih =>
    exact (escapesTerminators_plain hline).append (escapes_append_cons hescape []) ih

end Quotation

theorem Comment.closesAtEnd_of_blockBody {text lexeme rest : Text}
    (h : blockBody text = some (lexeme, rest)) : ClosesAtEnd lexeme := by
  fun_induction blockBody text generalizing lexeme with
  | case1 => cases h
  | case2 =>
    obtain ⟨rfl, -⟩ := Prod.mk.inj (Option.some.inj h)
    refine ⟨List.suffix_rfl, fun left right happend => ?_⟩
    have hlength := congrArg List.length happend
    simp only [List.length_append, List.length_cons, List.length_nil] at hlength
    exact List.eq_nil_of_length_eq_zero (by omega)
  | case3 c tail hopen ih =>
    obtain ⟨found, hfound, rfl⟩ := map_extend_eq_some_iff.1 h
    obtain ⟨hcloses, hnotBefore⟩ := ih hfound
    refine ⟨hcloses.trans (List.suffix_append _ _), fun left right happend => ?_⟩
    cases left with
    | nil =>
      obtain ⟨rfl, rfl⟩ := List.cons.inj happend
      exact absurd (lawful_blockBody hfound).2.symm (hopen (right ++ rest) rfl)
    | cons d left => exact hnotBefore left right (List.cons.inj happend).2

/-- What the rule emits respects the lines of the source. -/
def Rule.RespectsLines (rule : Rule) : Prop :=
  ∀ ⦃kind : TokenKind⦄ ⦃text lexeme rest : Text⦄, rule.action = .emit kind →
    rule.matcher text = some (lexeme, rest) → EcmaLex.RespectsLines kind lexeme rest

theorem respectsLines_of_within {rule : Rule} {p : Char → Bool} (h : rule.matcher.Within p)
    (hlf : p '\n' = false) (hcr : p '\r' = false) (hkind : rule.action ≠ .emit .comment) :
    rule.RespectsLines := by
  intro kind text lexeme rest haction hmatch
  have hother : kind ≠ .comment := fun hcomment => hkind (hcomment ▸ haction)
  refine ⟨?_, fun hcomment => absurd hcomment hother, fun hcomment => absurd hcomment hother⟩
  rintro ⟨c, hc, hline⟩
  have hp := h hmatch c hc
  rw [isLineTerminator, Bool.or_eq_true, beq_iff_eq, beq_iff_eq] at hline
  rcases hline with rfl | rfl
  · rw [hlf] at hp
    cases hp
  · rw [hcr] at hp
    cases hp

theorem respectsLines_of_fail {rule : Rule} {diagnosis : Diagnosis} (h : rule.action = .fail diagnosis) :
    rule.RespectsLines := by
  intro kind text lexeme rest haction
  rw [h] at haction
  cases haction

theorem respectsLines_lineComment {opening : Text} (hopening : ∀ c ∈ opening, isLineBreak c = false)
    (hshorter : ¬ opening <+: ['/', '*']) (hlonger : ¬ ['/', '*'] <+: opening) (since : Edition)
    (guard : Context → Bool) :
    Rule.RespectsLines { since, guard, matcher := toLineEnd opening, action := .emit .comment } := by
  intro kind text lexeme rest haction hmatch
  obtain rfl := Action.emit.inj haction
  have hblock := not_block_of_toLineEnd hopening hshorter hlonger hmatch
  obtain ⟨-, hends⟩ := Text.splitLine_ends text
  rw [Text.restOfLine, Option.some.inj (Option.ite_none_right_eq_some.1 hmatch).2] at hends
  refine ⟨?_, fun _ _ => hends, ?_⟩
  · rintro ⟨c, hc, hline⟩
    have hplain : (!isLineTerminator c) = true := oneLine_toLineEnd opening hmatch c hc
    rw [hline] at hplain
    cases hplain
  · rintro - later rfl
    exact absurd (List.prefix_append ['/', '*'] later) hblock

theorem respectsLines_blockComment (since : Edition) (guard : Context → Bool) :
    Rule.RespectsLines { since, guard, matcher := Comment.block, action := .emit .comment } := by
  intro kind text lexeme rest haction hmatch
  obtain rfl := Action.emit.inj haction
  simp only [Comment.block] at hmatch
  split at hmatch
  · obtain ⟨found, hfound, rfl⟩ := map_extend_eq_some_iff.1 hmatch
    have hblock : ['/', '*'] <+: ['/', '*'] ++ found := List.prefix_append _ _
    refine ⟨fun _ => .inr (.comment hblock), fun _ hother => absurd hblock hother, ?_⟩
    intro _ later hlater
    obtain rfl : later = found := (List.cons.inj (List.cons.inj hlater).2).2
    exact Comment.closesAtEnd_of_blockBody hfound
  · cases hmatch

theorem respectsLines_piece {kind : TokenKind} (hkind : kind ∈ templateKinds) (since : Edition)
    (guard : Context → Bool) (opening : Char) (stop : Template.Stop) :
    Rule.RespectsLines
      { since, guard, matcher := Template.piece opening stop, action := .emit kind } := by
  intro other text lexeme rest haction _
  obtain rfl := Action.emit.inj haction
  refine ⟨fun _ => .inr (.template lexeme hkind), ?_, ?_⟩
  · rintro rfl
    exact absurd hkind (by decide)
  · rintro rfl
    exact absurd hkind (by decide)

theorem respectsLines_string (since : Edition) (guard : Context → Bool) :
    Rule.RespectsLines { since, guard, matcher := Quotation.string, action := .emit .literal } := by
  intro kind text lexeme rest haction hmatch
  obtain rfl := Action.emit.inj haction
  obtain ⟨@⟨quote, later, hquote, hcloses⟩, -⟩ := Quotation.recognizes_string.1 hmatch
  refine ⟨fun _ => .inr (.string hquote ?_), nofun, nofun⟩
  exact (Text.escapesTerminators_plain (Quotation.isLineTerminator_of_opens hquote)).append
    (Text.escapes_append_cons (Quotation.ne_backslash hquote) []) (hcloses.escapesTerminators hquote)

theorem respectsLines_lineEnd (since : Edition) (guard : Context → Bool) :
    Rule.RespectsLines
      { since, guard, matcher := oneOf [['\r', '\n'], ['\n'], ['\r']], action := .emit .lineEnd } := by
  intro kind text lexeme rest haction hmatch
  obtain rfl := Action.emit.inj haction
  refine ⟨fun _ => .inl ⟨rfl, ?_⟩, nofun, nofun⟩
  have hapart := keepsPairs_lineEnd hmatch
  obtain ⟨spelling, hmem, hfound⟩ := List.exists_of_findSome?_eq_some hmatch
  obtain ⟨rfl, -⟩ := exactly_eq_some_iff.1 hfound
  simp only [List.mem_cons, List.not_mem_nil, or_false] at hmem
  obtain rfl | rfl | rfl := hmem
  · exact .pair
  · exact .lineFeed
  · exact .carriageReturn fun hlf => hapart ⟨rfl, hlf⟩

theorem respectsLines_of_mem_rules : ∀ rule ∈ rules, rule.RespectsLines := by
  have hwithin : ∀ {family : List Rule} {p : Char → Bool}, p '\n' = false → p '\r' = false →
      (∀ rule ∈ family, rule.action ≠ .emit .comment) →
        (∀ rule ∈ family, rule.matcher.Within p) → ∀ rule ∈ family, rule.RespectsLines :=
    fun hlf hcr hkind h rule hmem => respectsLines_of_within (h rule hmem) hlf hcr (hkind rule hmem)
  refine forall_mem_rules.2 ⟨?blank,
    hwithin (by decide) (by decide) (by decide) within_of_mem_numeralRules, ?quotation, ?template,
    hwithin (by decide) (by decide) (by decide) within_of_mem_wordRules, ?comment,
    hwithin (by decide) (by decide) (by decide) oneLine_of_mem_regExpRules,
    hwithin (by decide) (by decide) (by decide) within_of_mem_operatorRules,
    hwithin (by decide) (by decide) (by decide) within_of_mem_punctuationRules⟩
  case blank =>
    simp only [blankRules, List.forall_mem_cons, List.not_mem_nil, false_imp_iff, implies_true,
      and_true]
    exact ⟨respectsLines_of_within (within_one isBlank) rfl rfl (by decide), respectsLines_lineEnd _ _⟩
  case quotation =>
    simp only [quotationRules, List.forall_mem_cons, List.not_mem_nil, false_imp_iff, implies_true,
      and_true]
    exact ⟨respectsLines_string _ _, respectsLines_of_fail rfl⟩
  case template =>
    have hpiece : ∀ {kind}, kind ∈ templateKinds → ∀ guard opening stop, Rule.RespectsLines
        { since := .es2015, guard, matcher := Template.piece opening stop, action := .emit kind } :=
      fun hkind _ _ _ => respectsLines_piece hkind _ _ _ _
    simp only [templateRules, List.forall_mem_cons, List.not_mem_nil, false_imp_iff, implies_true,
      and_true]
    exact ⟨hpiece (by decide) _ _ _, hpiece (by decide) _ _ _, respectsLines_of_fail rfl,
      hpiece (by decide) _ _ _, hpiece (by decide) _ _ _, respectsLines_of_fail rfl⟩
  case comment =>
    simp only [commentRules, List.forall_mem_cons, List.not_mem_nil, false_imp_iff, implies_true,
      and_true]
    exact ⟨respectsLines_lineComment (by decide) (by decide) (by decide) _ _,
      respectsLines_blockComment _ _, respectsLines_of_fail rfl,
      respectsLines_lineComment (by decide) (by decide) (by decide) _ _,
      respectsLines_lineComment (by decide) (by decide) (by decide) _ _⟩

theorem respectsLines_of_select {edition : Edition} {context : Context} {kind : TokenKind}
    {text lexeme rest : Text}
    (h : select edition context text = some { action := .emit kind, lexeme, rest }) :
    RespectsLines kind lexeme rest := by
  obtain ⟨rule, hmem, hfind⟩ := List.exists_of_findSome?_eq_some h
  obtain ⟨-, haction, hmatch⟩ := Rule.find?_eq_some_iff.1 hfind
  exact respectsLines_of_mem_rules rule hmem haction hmatch

/-- Where a token of a run stands in the source, and that it was selected there. -/
theorem Lexer.exists_select_of_run {source : Text} {settings : Settings} {before later : List Token}
    {token : Token} (h : (ofText source settings).run.tokens = before ++ token :: later) :
    ∃ rest context, source = Token.texts before ++ (token.text ++ rest) ∧
      token.span.start = Text.byteSize (Token.texts before) ∧
      token.span.stop = token.span.start + token.text.byteSize ∧
      select settings.edition context (token.text ++ rest) =
        some { action := .emit token.kind, lexeme := token.text, rest } := by
  obtain ⟨now, after, hemits, hnext⟩ := exists_emits_of_run h
  obtain ⟨-, kind, lexeme, rest, hselect, rfl, rfl⟩ := next_eq_token_iff.1 hnext
  obtain ⟨-, happend⟩ := append_of_select hselect
  refine ⟨rest, now.context, ?_, hemits.partition.stands.position_eq, rfl, ?_⟩
  · have htexts : Token.texts before ++ now.cursor.rest = source := hemits.texts_append
    exact htexts.symm.trans (congrArg _ happend.symm)
  · have hsettings : now.settings = settings := hemits.settings_eq
    rw [selection, hsettings, ← happend] at hselect
    exact hselect

/-- Every place in the texts of tokens lies in one of them. -/
theorem Token.exists_of_texts {tokens : List Token} {left right : Text} {c : Char}
    (h : left ++ c :: right = Token.texts tokens) :
    ∃ before token later inside behind, tokens = before ++ token :: later ∧
      left = Token.texts before ++ inside ∧ token.text = inside ++ c :: behind := by
  induction tokens generalizing left with
  | nil =>
    rw [Token.texts, List.map_nil, List.flatten_nil] at h
    exact absurd h (by simp)
  | cons first tokens ih =>
    have hlater : ∀ after, left = first.text ++ after → after ++ c :: right = Token.texts tokens →
        ∃ before token later inside behind, first :: tokens = before ++ token :: later ∧
          left = Token.texts before ++ inside ∧ token.text = inside ++ c :: behind := by
      intro after hleft htexts
      obtain ⟨before, token, later, inside, behind, rfl, rfl, htoken⟩ := ih htexts
      refine ⟨first :: before, token, later, inside, behind, rfl, ?_, htoken⟩
      rw [hleft, Token.texts_cons, List.append_assoc]
    rw [Token.texts_cons] at h
    obtain ⟨middle, hfirst, htexts⟩ | ⟨after, hleft, htexts⟩ := List.append_eq_append_iff.1 h
    · cases middle with
      | nil =>
        rw [List.append_nil] at hfirst
        exact hlater [] (by rw [hfirst, List.append_nil]) htexts
      | cons d middle =>
        obtain ⟨rfl, -⟩ := List.cons.inj htexts
        exact ⟨[], first, tokens, left, middle, rfl, rfl, hfirst⟩
    · exact hlater after hleft htexts.symm

theorem IsLineEnd.exists_cons {text rest : Text} (h : IsLineEnd rest text) :
    ∃ c later, text = c :: later ∧ isLineTerminator c = true := by
  cases h with
  | pair => exact ⟨'\r', ['\n'], rfl, rfl⟩
  | lineFeed => exact ⟨'\n', [], rfl, rfl⟩
  | carriageReturn => exact ⟨'\r', [], rfl, rfl⟩

/-- Only one line end stands at the start of a text. -/
theorem IsLineEnd.unique {text rest other after : Text} (h : IsLineEnd rest text)
    (hother : IsLineEnd after other) (happend : text ++ rest = other ++ after) : text = other := by
  cases h with
  | pair =>
    cases hother with
    | pair => rfl
    | lineFeed => exact absurd (List.cons.inj happend).1 (by decide)
    | carriageReturn hcr => exact absurd (congrArg List.head? (List.cons.inj happend).2.symm) hcr
  | lineFeed =>
    cases hother with
    | pair => exact absurd (List.cons.inj happend).1 (by decide)
    | lineFeed => rfl
    | carriageReturn => exact absurd (List.cons.inj happend).1 (by decide)
  | carriageReturn hcr =>
    cases hother with
    | pair => exact absurd (congrArg List.head? (List.cons.inj happend).2) hcr
    | lineFeed => exact absurd (List.cons.inj happend).1 (by decide)
    | carriageReturn => rfl

/-- The second character of a line end is the LF of a pair. -/
theorem IsLineEnd.pair_of_append {rest inside behind : Text} {c : Char}
    (h : IsLineEnd rest (inside ++ c :: behind)) (hne : inside ≠ []) : inside = ['\r'] ∧ c = '\n' := by
  obtain ⟨d, inside, rfl⟩ := List.exists_cons_of_ne_nil hne
  generalize htext : d :: inside ++ c :: behind = text at h
  have hlength := congrArg List.length htext
  simp only [List.length_append, List.length_cons] at hlength
  cases h with
  | pair =>
    rw [List.length_cons, List.length_singleton] at hlength
    obtain rfl : inside = [] := List.eq_nil_of_length_eq_zero (by omega)
    obtain ⟨rfl, hlater⟩ := List.cons.inj htext
    exact ⟨rfl, (List.cons.inj hlater).1⟩
  | lineFeed =>
    rw [List.length_singleton] at hlength
    omega
  | carriageReturn =>
    rw [List.length_singleton] at hlength
    omega

/-- A text with a line end in it that does not end between a CR and its LF holds all of the line end. -/
theorem IsLineEnd.prefix_of_apart {c : Char} {later right inside behind rest : Text}
    (h : IsLineEnd right (c :: later)) (happend : later ++ right = behind ++ rest)
    (hapart : ¬ SplitsPair (inside ++ c :: behind) rest) : later <+: behind := by
  generalize htext : c :: later = text at h
  cases h with
  | pair =>
    obtain ⟨rfl, rfl⟩ := List.cons.inj htext
    cases behind with
    | nil =>
      refine absurd ⟨?_, congrArg List.head? happend.symm⟩ hapart
      rw [List.getLast?_append]
      rfl
    | cons d behind =>
      obtain ⟨rfl, -⟩ := List.cons.inj happend
      exact List.prefix_append ['\n'] behind
  | lineFeed =>
    obtain ⟨-, rfl⟩ := List.cons.inj htext
    exact List.nil_prefix
  | carriageReturn =>
    obtain ⟨-, rfl⟩ := List.cons.inj htext
    exact List.nil_prefix

/-- A token of a run that holds a line terminator is a line end, a block comment, a piece of a template or a
string that escapes it. A comment of another form goes up to the end of its line, and a block comment is closed
only at its end. Every line terminator of a source without fault is a token of its own, or lies in one of the
tokens that hide it. -/
theorem terminators_placed (source : Text) (settings : Settings) :
    (∀ token ∈ (Lexer.ofText source settings).run.tokens, ∃ rest,
      source.dropBytes? token.span.stop = some rest ∧
        RespectsLines token.kind token.text rest) ∧
    ∀ tokens, tokenize source settings = .ok tokens →
      ∀ left mark right, left ++ (mark ++ right) = source → IsLineEnd right mark →
        ¬ SplitsPair left (mark ++ right) → ∃ token ∈ tokens,
          (token.kind = .lineEnd ∧ token.text = mark ∧ token.span.start = left.byteSize) ∨
          (HidesTerminators token.kind token.text ∧ token.span.start ≤ left.byteSize ∧
            left.byteSize + mark.byteSize ≤ token.span.stop) := by
  constructor
  · intro token hmem
    obtain ⟨before, later, hsplit⟩ := List.append_of_mem hmem
    obtain ⟨rest, context, hsource, hstart, hstop, hselect⟩ := Lexer.exists_select_of_run hsplit
    refine ⟨rest, ?_, respectsLines_of_select hselect⟩
    rw [hsource, hstop, hstart, ← Text.byteSize_append, ← List.append_assoc, Text.dropBytes?_append]
  · intro tokens hok left mark right happend hmark hapart
    obtain ⟨c, tail, rfl, hc⟩ := hmark.exists_cons
    have htexts : left ++ c :: (tail ++ right) = Token.texts tokens := by
      rw [texts_of_tokenize hok, ← happend]
      rfl
    obtain ⟨before, token, later, inside, behind, rfl, rfl, htoken⟩ := Token.exists_of_texts htexts
    have hrun : (Lexer.ofText source settings).run.tokens = before ++ token :: later :=
      (Lexer.Run.result_eq_ok_iff.1 hok).2
    obtain ⟨rest, context, hsource, hstart, hstop, hselect⟩ := Lexer.exists_select_of_run hrun
    have hahead : tail ++ right = behind ++ rest := by
      rw [← happend, htoken] at hsource
      simpa using hsource
    refine ⟨token, List.mem_append_right _ List.mem_cons_self, ?_⟩
    have hholds : ∃ d ∈ token.text, isLineTerminator d = true :=
      ⟨c, htoken ▸ List.mem_append_right _ List.mem_cons_self, hc⟩
    obtain ⟨hkind, hline⟩ | hhides := (respectsLines_of_select hselect).placed hholds
    · left
      rw [htoken] at hline
      by_cases hinside : inside = []
      · subst hinside
        rw [List.append_nil]
        refine ⟨hkind, htoken.trans (hline.unique hmark ?_), hstart⟩
        simp [hahead]
      · obtain ⟨rfl, rfl⟩ := hline.pair_of_append hinside
        refine absurd ⟨?_, rfl⟩ hapart
        rw [List.getLast?_append]
        rfl
    · right
      have hsplits := not_splitsPair_of_select hselect
      rw [htoken] at hsplits
      obtain ⟨more, rfl⟩ := hmark.prefix_of_apart hahead hsplits
      refine ⟨hhides, ?_, ?_⟩
      · rw [hstart, Text.byteSize_append]
        omega
      · rw [hstop, hstart, htoken]
        simp only [Text.byteSize_append, Text.byteSize_cons]
        omega

/-- A string over an escaped line end, the line end behind it, and a comment up to the end of the source. -/
theorem terminators_placed_string :
    let string : Text := [Quotation.singleQuote, '\\', '\r', '\n', Quotation.singleQuote]
    let comment : Text := ['/', '/', 'x']
    let source : Text := string ++ (['\r', '\n'] ++ comment)
    let tokens : List Token :=
      [⟨.literal, string, ⟨0, 5, ⟨1, 1⟩⟩⟩, ⟨.lineEnd, ['\r', '\n'], ⟨5, 7, ⟨2, 2⟩⟩⟩,
        ⟨.comment, comment, ⟨7, 10, ⟨3, 1⟩⟩⟩]
    tokenize source { edition := .es5 } = .ok tokens ∧ IsLineEnd comment ['\r', '\n'] ∧
      ¬ SplitsPair string (['\r', '\n'] ++ comment) ∧
      ∃ token ∈ tokens,
        (token.kind = .lineEnd ∧ token.text = ['\r', '\n'] ∧ token.span.start = 5) ∨
        (HidesTerminators token.kind token.text ∧ token.span.start ≤ 5 ∧ 7 ≤ token.span.stop) := by
  intro string comment source tokens
  have hok : tokenize source { edition := .es5 } = .ok tokens := by decide +kernel
  have hapart : ¬ SplitsPair string (['\r', '\n'] ++ comment) := fun h => absurd h.1 (by decide)
  exact ⟨hok, .pair, hapart,
    (terminators_placed source { edition := .es5 }).2 tokens hok string _ comment rfl .pair hapart⟩

end EcmaLex
