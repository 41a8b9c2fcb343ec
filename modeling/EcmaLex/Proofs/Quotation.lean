import EcmaLex.Proofs.Diagnosis
import EcmaLex.Proofs.Form

/-!
# What a string is

A string is a quote, items and the same quote again. `Quotation.IsString` says what items there are,
without saying which to try first, and no text begins with two strings. The reader finds the string that
a text begins with, and where there is none the rules tell that it is unfinished: `strings_read`.
-/

namespace EcmaLex

open Matcher

namespace Quotation

/-- What stands in a string after its opening quote: items, and the quote again. -/
inductive Closes (quote : Char) : Text → Prop where
  | close : Closes quote [quote]
  /-- An escaped CR LF. -/
  | pair {later : Text} (h : Closes quote later) : Closes quote ('\\' :: '\r' :: '\n' :: later)
  /-- Any other escaped character. A CR with an LF behind it is only escaped together with it. -/
  | escaped {c : Char} {later : Text} (hpair : c = '\r' → later.head? ≠ some '\n')
      (h : Closes quote later) : Closes quote ('\\' :: c :: later)
  | plain {c : Char} {later : Text} (hquote : c ≠ quote) (hescape : c ≠ '\\')
      (hline : isLineTerminator c = false) (h : Closes quote later) : Closes quote (c :: later)

/-- A whole string, in quotes of either sort. -/
inductive IsString : Text → Prop where
  | mk {quote : Char} {later : Text} (hquote : opensQuotation quote = true)
      (h : Closes quote later) : IsString (quote :: later)

variable {quote : Char} {lexeme rest : Text}

theorem Closes.ne_nil (h : Closes quote lexeme) : lexeme ≠ [] := by
  cases h <;> exact List.cons_ne_nil _ _

theorem ne_backslash (hquote : opensQuotation quote = true) : quote ≠ '\\' := by
  rintro rfl
  cases hquote

/-- Items up to the quote are read as such, whatever follows. -/
theorem Closes.body_eq (hquote : opensQuotation quote = true) (h : Closes quote lexeme)
    (rest : Text) : body quote (lexeme ++ rest) = some (lexeme, rest) := by
  induction h with
  | close =>
    rw [List.singleton_append, body_char (ne_backslash hquote), if_pos rfl]
  | pair _ ih =>
    rw [List.cons_append, List.cons_append, List.cons_append, body, ih]
    rfl
  | @escaped c later hpair h ih =>
    rw [List.cons_append, List.cons_append, body, ih]
    · rfl
    · rintro tail rfl htail
      obtain ⟨d, later, rfl⟩ := List.exists_cons_of_ne_nil h.ne_nil
      exact hpair rfl (by rw [List.head?_cons, (List.cons.inj htail).1])
  | plain hother hescape hline _ ih =>
    rw [List.cons_append, body_char hescape, if_neg hother, if_neg (by rw [hline]; decide), ih]
    rfl

theorem closes_of_body {text : Text} (h : body quote text = some (lexeme, rest)) :
    Closes quote lexeme := by
  fun_induction body quote text generalizing lexeme with
  | case1 => cases h
  | case2 => cases h
  | case3 tail ih =>
    obtain ⟨found, hfound, rfl⟩ := map_extend_eq_some_iff.1 h
    exact .pair (ih hfound)
  | case4 c tail hpair ih =>
    obtain ⟨found, hfound, rfl⟩ := map_extend_eq_some_iff.1 h
    refine .escaped (fun hc hhead => ?_) (ih hfound)
    obtain ⟨later, rfl⟩ := List.head?_eq_some_iff.1 hhead
    exact hpair (later ++ rest) hc (lawful_body quote hfound).2.symm
  | case5 =>
    obtain ⟨rfl, -⟩ := Prod.mk.inj (Option.some.inj h)
    exact .close
  | case6 => cases h
  | case7 c tail hend _ hescape hother hline ih =>
    obtain ⟨found, hfound, rfl⟩ := map_extend_eq_some_iff.1 h
    exact .plain hother (not_escape hend hescape) (by simpa using hline) (ih hfound)

theorem string_cons (hquote : opensQuotation quote = true) (rest : Text) :
    string (quote :: rest) = (body quote rest).map (extend [quote]) :=
  if_pos (by simpa [opensQuotation] using hquote)

theorem recognizes_string : string.Recognizes IsString := by
  intro text lexeme rest
  constructor
  · intro h
    refine ⟨?_, (lawful_string h).2⟩
    unfold string at h
    split at h
    · cases h
    · obtain ⟨hquote, hmap⟩ := Option.ite_none_right_eq_some.1 h
      obtain ⟨later, hbody, rfl⟩ := map_extend_eq_some_iff.1 hmap
      exact .mk (by simpa [opensQuotation] using hquote) (closes_of_body hbody)
  · rintro ⟨@⟨quote, later, hquote, h⟩, rfl⟩
    rw [List.cons_append, string_cons hquote, h.body_eq hquote]
    rfl

theorem string_eq_none_iff {text : Text} :
    string text = none ↔ ∀ lexeme, IsString lexeme → ¬ lexeme <+: text :=
  recognizes_string.munches.eq_none_iff

theorem unfinished_cons (hquote : opensQuotation quote = true) (rest : Text) :
    unfinished (quote :: rest) = some (Text.splitLine (quote :: rest)) := by
  simp only [opensQuotation, Bool.or_eq_true, beq_iff_eq] at hquote
  rcases hquote with rfl | rfl <;> rfl

end Quotation

variable {edition : Edition} {context : Context} {quote : Char}

/-- Where a quote stands, the string that begins there is selected, or the rest of the line without it. -/
theorem select_quotation (hes5 : edition.includes .es5 = true) (hquote : opensQuotation quote = true)
    (rest : Text) :
    select edition context (quote :: rest) =
      match Quotation.string (quote :: rest) with
      | some (lexeme, after) => some { action := .emit .literal, lexeme, rest := after }
      | none =>
        some { action := .fail (.unfinished .string)
               lexeme := (Text.splitLine (quote :: rest)).1
               rest := (Text.splitLine (quote :: rest)).2 } := by
  rw [select_cons, rulesOpenedBy_of_opensQuotation hquote]
  simp only [firstOf, quotationRules, List.findSome?_cons, Rule.find?, Rule.applies, hes5,
    Bool.and_true, if_true, Quotation.unfinished_cons hquote, Option.map_some]
  cases Quotation.string (quote :: rest) <;> rfl

/-- The reader of strings finds, by its length, the one string that a text begins with. From the oldest
edition on and in every context, that string is selected where a quote stands; without it, the string is
unfinished as far as its line goes. -/
theorem strings_read (text : Text) :
    (∀ n, (Quotation.string text).map (fun found => found.1.byteSize) = some n ↔
      ∃ lexeme, text.takeBytes? n = some lexeme ∧ Quotation.IsString lexeme) ∧
    (∀ lexeme other, Quotation.IsString lexeme → Quotation.IsString other → lexeme <+: text →
      other <+: text → lexeme = other) ∧
    ∀ edition context, Edition.includes edition .es5 = true →
      text.head?.any opensQuotation = true →
        (∀ lexeme rest, Quotation.IsString lexeme → lexeme ++ rest = text →
          select edition context text = some { action := .emit .literal, lexeme, rest }) ∧
        ((∀ lexeme, Quotation.IsString lexeme → ¬ lexeme <+: text) →
          select edition context text =
            some { action := .fail (.unfinished .string)
                   lexeme := text.takeWhile fun c => !isLineBreak c
                   rest := text.dropWhile fun c => !isLineBreak c }) := by
  refine ⟨fun n => ?_, fun lexeme other => Quotation.recognizes_string.unique, ?_⟩
  · constructor
    · intro hsize
      obtain ⟨⟨lexeme, rest⟩, hfound, rfl⟩ := Option.map_eq_some_iff.1 hsize
      obtain ⟨h, rfl⟩ := Quotation.recognizes_string.1 hfound
      exact ⟨lexeme, Text.takeBytes?_append lexeme rest, h⟩
    · rintro ⟨lexeme, htake, h⟩
      obtain ⟨⟨_, rest⟩, hcut, rfl⟩ := Option.map_eq_some_iff.1 htake
      obtain ⟨rfl, happend⟩ := Text.splitAtByte?_eq_some_iff.1 hcut
      rw [Quotation.recognizes_string.2 ⟨h, happend⟩, Option.map_some]
  · intro edition context hes5 hhead
    obtain ⟨quote, hquote, hopens⟩ := (Option.any_eq_true _ _).1 hhead
    obtain ⟨tail, rfl⟩ := List.head?_eq_some_iff.1 hquote
    rw [select_quotation hes5 hopens]
    constructor
    · intro lexeme rest h happend
      rw [Quotation.recognizes_string.2 ⟨h, happend⟩]
    · intro hnothing
      rw [Quotation.string_eq_none_iff.2 hnothing]
      rfl

/-- A string over an escaped line end is whole. U+2028 may stand in a string, and still ends the line of an
unfinished one. -/
theorem strings_read_lineEnds :
    let whole : Text := [Quotation.singleQuote, '\\', '\r', '\n', Quotation.singleQuote]
    let opened : Text := [Quotation.doubleQuote, 'a', '\u2028', 'b', '\n']
    Edition.es5.includes .es5 = true ∧ (whole ++ [';']).head?.any opensQuotation = true ∧
      opened.head?.any opensQuotation = true ∧ Quotation.IsString whole ∧
      (∀ lexeme, Quotation.IsString lexeme → ¬ lexeme <+: opened) ∧
      select .es5 .initial (whole ++ [';']) =
        some { action := .emit .literal, lexeme := whole, rest := [';'] } ∧
      select .es5 .initial opened =
        some { action := .fail (.unfinished .string)
               lexeme := [Quotation.doubleQuote, 'a']
               rest := ['\u2028', 'b', '\n'] } := by
  intro whole opened
  have hes5 : Edition.es5.includes .es5 = true := by decide
  have hwhole : Quotation.IsString whole := .mk rfl (.pair .close)
  have hopened : ∀ lexeme, Quotation.IsString lexeme → ¬ lexeme <+: opened :=
    Quotation.string_eq_none_iff.1 (by decide)
  obtain ⟨hfound, -⟩ := (strings_read (whole ++ [';'])).2.2 .es5 .initial hes5 rfl
  obtain ⟨-, hunfinished⟩ := (strings_read opened).2.2 .es5 .initial hes5 rfl
  exact ⟨hes5, rfl, rfl, hwhole, hopened, hfound whole [';'] hwhole rfl, hunfinished hopened⟩

end EcmaLex
