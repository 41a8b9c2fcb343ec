import EcmaLex.Proofs.History
import EcmaLex.Proofs.Opening

/-!
# What a word is

A word is a fixed literal, a keyword or a name. Which of them is told by the word itself, by the edition,
and by whether the nearest token before it that is not trivia is a period: `Name.kindOf`. The rules for
words ask for exactly this, since no other rule reads a word and the context recalls the tokens so far.
-/

namespace EcmaLex

open Matcher

namespace Name

/-- The words that an edition reserves. -/
def reservedIn (edition : Edition) : List Text :=
  keywords ++ if edition.includes .es2015 then contextualKeywords else []

/-- The kind of a word, from the kind of the nearest token before it that is not trivia. -/
def kindOf (edition : Edition) (last : Option TokenKind) (word : Text) : TokenKind :=
  if word ∈ fixedLiterals then .literal
  else if word ∈ reservedIn edition ∧ last ≠ some .period then .keyword
  else .identifier

theorem mem_words_of_reservedIn {edition : Edition} {word : Text} (h : word ∈ reservedIn edition) :
    word ∈ keywords ++ contextualKeywords := by
  refine List.mem_append.2 ((List.mem_append.1 h).imp_right fun hlater => ?_)
  split at hlater
  · exact hlater
  · cases hlater

/-- No fixed literal is reserved. -/
theorem not_mem_fixedLiterals : ∀ word ∈ keywords ++ contextualKeywords, word ∉ fixedLiterals := by
  decide +kernel

theorem kindOf_of_reservedIn {edition : Edition} {last : Option TokenKind} {word : Text}
    (h : word ∈ reservedIn edition) (hlast : last ≠ some .period) :
    kindOf edition last word = .keyword := by
  have hfixed := not_mem_fixedLiterals word (mem_words_of_reservedIn h)
  rw [kindOf, if_neg hfixed, if_pos ⟨h, hlast⟩]

/-- Every reserved word is plain. -/
theorem isNamePart_of_mem_words : ∀ word ∈ fixedLiterals ++ keywords ++ contextualKeywords,
    ∀ c ∈ word, isNamePart c = true := by
  decide +kernel

/-- A reserved word is found where no name goes on behind it. -/
theorem wordIn_of_mem {words : List Text} {word rest : Text} (hmem : word ∈ words)
    (hword : word ∈ fixedLiterals ++ keywords ++ contextualKeywords)
    (hstop : rest.head?.any isNamePart = false) : wordIn words (word ++ rest) ≠ none := by
  have hrun := Text.run_eq_iff.2 ⟨isNamePart_of_mem_words word hword, hstop⟩
  rw [wordIn_eq_some_iff.2 ⟨hmem, hrun⟩]
  exact Option.some_ne_none _

end Name

variable {edition : Edition} {context : Context} {kind : TokenKind} {lexeme rest : Text}

/-- Where a word begins, only the rules for words answer. -/
theorem rulesOpenedBy_of_opensWord {c : Char} (h : opensWord c = true) :
    rulesOpenedBy c = wordRules := by
  have hascii : Text.Ascii opensWord := Text.ascii_isNameStart.or (Text.ascii_beq (by decide))
  have hothers : opensWord c = true →
      (isBlank c || isLineTerminator c || opensNumeral c || opensQuotation c || opensTemplate c ||
        opensComment c || c == '/' || opensOperator c || isPunctuation c) = false := by
    refine Text.forall_ascii ?_ c (hascii c h)
    decide +kernel
  have hnone := hothers h
  simp only [Bool.or_eq_false_iff] at hnone
  simp [rulesOpenedBy, h, hnone]

/-- A name is found only where no rule for a reserved word answers. -/
theorem wordIn_eq_none_of_identifier {text : Text}
    (h : firstOf wordRules edition context text =
      some { action := .emit .identifier, lexeme, rest }) :
    ∀ rule ∈ wordRules.take 3, rule.applies edition context = true → rule.matcher text = none := by
  rw [← firstOf_eq_none_iff]
  rw [← List.take_append_drop 3 wordRules, firstOf_append] at h
  cases hfirst : firstOf (wordRules.take 3) edition context text with
  | none => rfl
  | some found =>
    rw [hfirst, Option.some_or, Option.some.injEq] at h
    obtain ⟨rule, hmem, -, haction, -⟩ := exists_of_firstOf hfirst
    have hact : ∀ rule ∈ wordRules.take 3, rule.action ≠ .emit .identifier := by
      simp [wordRules]
    exact absurd (by rw [haction, h]) (hact rule hmem)

/-- What is found as a name is no fixed literal, and reserved only behind a period. -/
theorem kindOf_of_identifier (hes5 : edition.includes .es5 = true)
    (h : firstOf wordRules edition context (lexeme ++ rest) =
      some { action := .emit .identifier, lexeme, rest })
    (hstop : rest.head?.any isNamePart = false) :
    Name.kindOf edition context.lastSignificant lexeme = .identifier := by
  have hnone := wordIn_eq_none_of_identifier h
  simp only [wordRules, List.take_succ_cons, List.take_zero, List.forall_mem_cons,
    List.not_mem_nil, false_imp_iff, implies_true, and_true, Rule.applies, hes5, true_and,
    forall_const, Bool.and_eq_true, Bool.not_eq_true', Context.afterPeriod, beq_eq_false_iff_ne]
    at hnone
  obtain ⟨hfixed, hkeyword, hcontextual⟩ := hnone
  -- A reserved word would have been found first, since no name goes on behind the lexeme.
  have hnotFixed : lexeme ∉ Name.fixedLiterals := fun hmem =>
    Name.wordIn_of_mem hmem (by simp [hmem]) hstop hfixed
  have hnotReserved : ¬ (lexeme ∈ Name.reservedIn edition ∧
      context.lastSignificant ≠ some .period) := by
    rintro ⟨hmem, hlast⟩
    rcases List.mem_append.1 hmem with hbase | hlater
    · exact Name.wordIn_of_mem hbase (by simp [hbase]) hstop (hkeyword hlast)
    · obtain ⟨hsince, hlater⟩ := List.mem_ite_nil_right.1 hlater
      exact Name.wordIn_of_mem hlater (by simp [hlater]) hstop (hcontextual ⟨hsince, hlast⟩)
  rw [Name.kindOf, if_neg hnotFixed, if_neg hnotReserved]

/-- The rules for words tell what a word is by the word, the edition and the last significant token. -/
theorem kind_of_wordRules (hes5 : edition.includes .es5 = true)
    (h : firstOf wordRules edition context (lexeme ++ rest) =
      some { action := .emit kind, lexeme, rest }) :
    kind = Name.kindOf edition context.lastSignificant lexeme := by
  have hnotAfter : (!context.afterPeriod) = true → context.lastSignificant ≠ some .period := by
    simp [Context.afterPeriod]
  obtain ⟨rule, hmem, happlies, haction, hmatch⟩ := exists_of_firstOf h
  obtain ⟨hsince, hguard⟩ := Bool.and_eq_true_iff.1 happlies
  simp only [wordRules, List.mem_cons, List.not_mem_nil, or_false] at hmem
  rcases hmem with rfl | rfl | rfl | rfl
  · obtain rfl := Action.emit.inj haction
    rw [Name.kindOf, if_pos (Name.wordIn_eq_some_iff.1 hmatch).1]
  · obtain rfl := Action.emit.inj haction
    have hreserved : lexeme ∈ Name.reservedIn edition :=
      List.mem_append_left _ (Name.wordIn_eq_some_iff.1 hmatch).1
    rw [Name.kindOf_of_reservedIn hreserved (hnotAfter hguard)]
  · obtain rfl := Action.emit.inj haction
    have hreserved : lexeme ∈ Name.reservedIn edition :=
      List.mem_append_right _
        (List.mem_ite_nil_right.2 ⟨hsince, (Name.wordIn_eq_some_iff.1 hmatch).1⟩)
    rw [Name.kindOf_of_reservedIn hreserved (hnotAfter hguard)]
  · obtain rfl := Action.emit.inj haction
    exact (kindOf_of_identifier hes5 h (Name.head?_of_identifier hmatch)).symm

/-- A lexeme that begins as a word does is of the kind of that word. -/
theorem kind_of_opensWord
    (hselect : select edition context (lexeme ++ rest) =
      some { action := .emit kind, lexeme, rest })
    (hopens : lexeme.head?.any opensWord = true) :
    kind = Name.kindOf edition context.lastSignificant lexeme := by
  have hes5 := includes_es5_of_select hselect
  obtain ⟨c, tail, rfl⟩ := List.exists_cons_of_ne_nil (append_of_select hselect).1
  have hword : opensWord c = true := hopens
  apply kind_of_wordRules hes5
  rw [← rulesOpenedBy_of_opensWord hword]
  exact (select_cons edition context c (tail ++ rest)).symm.trans hselect

/-- Only what begins as a word does is a keyword or a name. -/
theorem opensWord_of_kind {lexer : Lexer}
    (hselect : lexer.selection = some { action := .emit kind, lexeme, rest })
    (hkind : kind = .keyword ∨ kind = .identifier) : lexeme.head?.any opensWord = true := by
  have hplain : lexeme.head?.any isNameStart = true → lexeme.head?.any opensWord = true := by
    rw [Option.any_eq_true, Option.any_eq_true]
    rintro ⟨c, hhead, hc⟩
    exact ⟨c, hhead, by rw [opensWord, hc]; rfl⟩
  rcases hkind with rfl | rfl
  · exact hplain (run_of_isReserved hselect (.inl rfl)).1
  · rcases Name.begins_of_identifier (identifier_of_select hselect) with hstart | ⟨_, _, _, hescape, -⟩
    · exact hplain hstart
    · obtain ⟨tail, rfl⟩ := hescape
      rfl

/-- Trivia at the end make no difference to the nearest token before it that is none. -/
theorem Token.lastSignificant_append_trivia {gap : List Token} (h : ∀ token ∈ gap, token.isTrivia = true)
    (tokens : List Token) : lastSignificant (tokens ++ gap) = lastSignificant tokens := by
  have hnone : gap.filter (fun token => !token.isTrivia) = [] := by
    rw [List.filter_eq_nil_iff]
    intro token hmem
    rw [h token hmem]
    decide
  rw [lastSignificant, lastSignificant, List.filter_append, hnone, List.append_nil]

/-- In every scan a token that begins as a word does is a fixed literal, a keyword or a name: which of them
is told by its text, the edition, and the nearest token before it that is not trivia, however many trivia
stand between them. No other token is a keyword or a name, and none with an escape is a keyword. -/
theorem words_classified (source : Text) (settings : Settings) :
    ∀ before gap token later,
      (Lexer.ofText source settings).run.tokens = before ++ gap ++ token :: later →
      (∀ trivia ∈ gap, trivia.isTrivia = true) →
        (token.text.head?.any opensWord = true →
          token.kind = Name.kindOf settings.edition (Token.lastSignificant before) token.text) ∧
        (token.kind = .keyword ∨ token.kind = .identifier →
          token.text.head?.any opensWord = true) ∧
        ('\\' ∈ token.text → token.kind ≠ .keyword) := by
  intro before gap token later hrun hgap
  obtain ⟨now, after, hemits, hnext⟩ := Lexer.exists_emits_of_run hrun
  obtain ⟨-, kind, lexeme, rest, hselect, rfl, -⟩ := Lexer.next_eq_token_iff.1 hnext
  have happend : lexeme ++ rest = now.cursor.rest := (append_of_select hselect).2
  have hlast : now.context.lastSignificant = Token.lastSignificant before := by
    rw [hemits.recalls.lastSignificant_eq, Token.lastSignificant_append_trivia hgap]
  refine ⟨fun hopens => ?_, opensWord_of_kind hselect, fun hescape hkind => ?_⟩
  · have hfound := hselect
    rw [Lexer.selection, ← happend, hemits.settings_eq] at hfound
    have hkind := kind_of_opensWord hfound hopens
    rwa [hlast] at hkind
  · obtain ⟨hplain, -⟩ := Text.run_eq_iff.1 (run_of_isReserved hselect (.inl hkind)).2
    exact absurd (hplain _ hescape) (by decide)

/-- Behind a period and a blank, a reserved word is a name. -/
theorem words_classified_afterPeriod :
    let source : Text := ['.', ' ', 'i', 'f']
    let before : List Token := [⟨.period, ['.'], ⟨0, 1, ⟨1, 1⟩⟩⟩]
    let gap : List Token := [⟨.whitespace, [' '], ⟨1, 2, ⟨1, 2⟩⟩⟩]
    ∃ token, (Lexer.ofText source {}).run.tokens = before ++ gap ++ token :: [] ∧
      (∀ trivia ∈ gap, trivia.isTrivia = true) ∧ token.text = ['i', 'f'] ∧
      token.kind = .identifier := by
  intro source before gap
  let token : Token := ⟨.identifier, ['i', 'f'], ⟨2, 4, ⟨1, 3⟩⟩⟩
  have hrun : (Lexer.ofText source {}).run.tokens = before ++ gap ++ token :: [] := by
    decide +kernel
  have hgap : ∀ trivia ∈ gap, trivia.isTrivia = true := by decide
  have hkind := (words_classified source {} before gap token [] hrun hgap).1 (by decide)
  exact ⟨token, hrun, hgap, rfl, hkind.trans (by decide +kernel)⟩

end EcmaLex
