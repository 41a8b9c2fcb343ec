import EcmaLex.Proofs.Form
import EcmaLex.Proofs.Offset.Slash
import EcmaLex.Proofs.OneLine
import EcmaLex.Proofs.Slash

/-!
# What a regular expression is

Between its slashes a regular expression is a row of items: an escaped character, a class, or any other
single character. A bracket is a class with all that follows up to its closing bracket, and an item by
itself where no class is closed. There is one way to read a text item by item, and a regular expression is
whole if a slash comes next: `regExps_read`.
-/

namespace EcmaLex

open Matcher

namespace RegExp

/-- What stands in a class after its opening bracket: its members, and the closing bracket. -/
inductive ClosesClass : Text → Prop where
  | close : ClosesClass [']']
  | escaped {c : Char} {later : Text} (hbreak : isLineBreak c = false) (h : ClosesClass later) :
      ClosesClass ('\\' :: c :: later)
  | plain {c : Char} {later : Text} (hclose : c ≠ ']') (hescape : c ≠ '\\')
      (hline : isLineTerminator c = false) (h : ClosesClass later) : ClosesClass (c :: later)

/-- The item that a text begins with which goes on with `ahead` behind it. -/
inductive Item : Text → Text → Prop where
  | escaped {c : Char} (hbreak : isLineBreak c = false) (ahead : Text) : Item ['\\', c] ahead
  | bracketed {members : Text} (h : ClosesClass members) (ahead : Text) :
      Item ('[' :: members) ahead
  /-- A bracket behind which no class is closed. -/
  | bracket {ahead : Text} (hopen : ∀ members, ClosesClass members → ¬ members <+: ahead) :
      Item ['['] ahead
  | plain {c : Char} (hslash : c ≠ '/') (hescape : c ≠ '\\') (hbracket : c ≠ '[')
      (hline : isLineTerminator c = false) (ahead : Text) : Item [c] ahead

/-- Items one after the other, the last of them with `ahead` behind it. -/
inductive Items : List Text → Text → Prop where
  | nil (ahead : Text) : Items [] ahead
  | cons {item : Text} {later : List Text} {ahead : Text} (h : Item item (later.flatten ++ ahead))
      (hlater : Items later ahead) : Items (item :: later) ahead

/-- The text begins with no item. -/
def Exhausted (text : Text) : Prop :=
  ∀ item ahead, Item item ahead → item ++ ahead ≠ text

/-- All items from the start of a text on, as far as they go, and what stands behind them. -/
structure ReadsTo (text : Text) (items : List Text) (ahead : Text) : Prop where
  read : Items items ahead
  append_eq : items.flatten ++ ahead = text
  exhausted : Exhausted ahead

variable {text item other ahead after : Text} {items others : List Text}

theorem recognizes_classBody : classBody.Recognizes ClosesClass := by
  intro text members rest
  constructor
  · intro h
    refine ⟨?_, (lawful_classBody h).2⟩
    fun_induction classBody text generalizing members with
    | case1 => cases h
    | case2 => cases h
    | case3 => cases h
    | case4 c tail hbreak ih =>
      obtain ⟨found, hfound, rfl⟩ := map_extend_eq_some_iff.1 h
      exact .escaped (by simpa using hbreak) (ih hfound)
    | case5 =>
      obtain ⟨rfl, -⟩ := Prod.mk.inj (Option.some.inj h)
      exact .close
    | case6 => cases h
    | case7 c tail hend hescape hclose hline ih =>
      obtain ⟨found, hfound, rfl⟩ := map_extend_eq_some_iff.1 h
      exact .plain hclose (not_escape hend hescape) (by simpa using hline) (ih hfound)
  · rintro ⟨h, rfl⟩
    induction h with
    | close => rfl
    | @escaped c later hbreak _ ih =>
      rw [List.cons_append, List.cons_append, classBody, if_neg (by rw [hbreak]; decide), ih]
      rfl
    | plain hclose hescape hline _ ih =>
      rw [List.cons_append, classBody_char hescape, if_neg hclose, if_neg (by rw [hline]; decide), ih]
      rfl

theorem Item.ne_nil (h : Item item ahead) : item ≠ [] := by
  cases h <;> exact List.cons_ne_nil _ _

/-- Reading goes on behind an item. -/
theorem Item.body_eq (h : Item item ahead) : body (item ++ ahead) = (body ahead).map (extend item) := by
  cases h with
  | escaped hbreak =>
    rw [List.cons_append, List.cons_append, List.nil_append, body, if_neg (by rw [hbreak]; decide)]
  | bracketed hmembers =>
    rw [List.cons_append, body_class (recognizes_classBody.2 ⟨hmembers, rfl⟩)]
  | bracket hopen =>
    rw [List.singleton_append, body_bracket (recognizes_classBody.munches.eq_none_iff.2 hopen)]
  | plain hslash hescape hbracket hline =>
    rw [List.singleton_append, body_char hescape hbracket, if_neg hslash,
      if_neg (by rw [hline]; decide)]

theorem Items.body_eq (h : Items items ahead) :
    body (items.flatten ++ ahead) = (body ahead).map (extend items.flatten) := by
  induction h with
  | nil ahead =>
    have hread : extend [].flatten = id := rfl
    rw [hread, Option.map_id, List.flatten_nil, List.nil_append]
    rfl
  | cons hitem _ ih =>
    rw [List.flatten_cons, List.append_assoc, hitem.body_eq, ih, Option.map_map]
    congr 1
    funext found
    simp [extend]

theorem exhausted_slash (ahead : Text) : Exhausted ('/' :: ahead) := by
  intro item rest h he
  cases h with
  | escaped => cases he
  | bracketed => cases he
  | bracket => cases he
  | plain hslash => exact hslash (List.cons.inj he).1

/-- What is read up to and with the closing slash are items and that slash. -/
theorem exists_items_of_body {lexeme rest : Text} (h : body text = some (lexeme, rest)) :
    ∃ items, Items items ('/' :: rest) ∧ lexeme = items.flatten ++ ['/'] := by
  have hbefore : ∀ {item tail read : Text}, Item item tail → read ++ rest = tail →
      (∃ items, Items items ('/' :: rest) ∧ read = items.flatten ++ ['/']) →
      ∃ items, Items items ('/' :: rest) ∧ item ++ read = items.flatten ++ ['/'] := by
    rintro item tail read hitem happend ⟨items, hitems, rfl⟩
    refine ⟨item :: items, .cons ?_ hitems, ?_⟩
    · simpa [← happend] using hitem
    · simp
  fun_induction body text generalizing lexeme with
  | case1 => cases h
  | case2 => cases h
  | case3 => cases h
  | case4 c tail hbreak ih =>
    obtain ⟨found, hfound, rfl⟩ := map_extend_eq_some_iff.1 h
    exact hbefore (.escaped (by simpa using hbreak) tail) (append_of_body hfound) (ih hfound)
  | case5 tail members after hclass ih =>
    obtain ⟨found, hfound, rfl⟩ := map_extend_eq_some_iff.1 h
    have hmembers := (recognizes_classBody.1 hclass).1
    exact hbefore (.bracketed hmembers after) (append_of_body hfound) (ih hfound)
  | case6 tail hclass ih =>
    obtain ⟨found, hfound, rfl⟩ := map_extend_eq_some_iff.1 h
    have hopen := recognizes_classBody.munches.eq_none_iff.1 hclass
    exact hbefore (.bracket hopen) (append_of_body hfound) (ih hfound)
  | case7 =>
    obtain ⟨rfl, rfl⟩ := Prod.mk.inj (Option.some.inj h)
    exact ⟨[], .nil _, rfl⟩
  | case8 => cases h
  | case9 c tail hend hescape hbracket hslash hline ih =>
    obtain ⟨found, hfound, rfl⟩ := map_extend_eq_some_iff.1 h
    have hplain := Item.plain hslash (not_escape hend hescape) hbracket (by simpa using hline) tail
    exact hbefore hplain (append_of_body hfound) (ih hfound)

theorem body_eq_some_iff {lexeme rest : Text} :
    body text = some (lexeme, rest) ↔
      ∃ items, ReadsTo text items ('/' :: rest) ∧ lexeme = items.flatten ++ ['/'] := by
  constructor
  · intro h
    obtain ⟨items, hitems, rfl⟩ := exists_items_of_body h
    have happend := append_of_body h
    rw [List.append_assoc, List.singleton_append] at happend
    exact ⟨items, ⟨hitems, happend, exhausted_slash rest⟩, rfl⟩
  · rintro ⟨items, ⟨hitems, rfl, -⟩, rfl⟩
    rw [hitems.body_eq, body_char (by decide) (by decide), if_pos rfl]
    rfl

/-- A text that begins with an item begins with no other one. -/
theorem Item.unique (h : Item item ahead) (hother : Item other after)
    (he : item ++ ahead = other ++ after) : item = other := by
  cases h with
  | escaped =>
    cases hother with
    | escaped =>
      cases he
      rfl
    | bracketed => cases he
    | bracket => cases he
    | plain _ hescape =>
      cases he
      exact absurd rfl hescape
  | @bracketed members hmembers =>
    cases hother with
    | escaped => cases he
    | @bracketed others hothers =>
      have hbegins : others <+: members ++ ahead := ⟨after, (List.cons.inj he).2.symm⟩
      rw [recognizes_classBody.unique hmembers hothers (List.prefix_append _ ahead) hbegins]
    | bracket hopen => exact absurd ⟨ahead, (List.cons.inj he).2⟩ (hopen _ hmembers)
    | plain _ _ hbracket => exact absurd (List.cons.inj he).1.symm hbracket
  | bracket hopen =>
    cases hother with
    | escaped => cases he
    | bracketed hmembers => exact absurd ⟨after, (List.cons.inj he).2.symm⟩ (hopen _ hmembers)
    | bracket => rfl
    | plain _ _ hbracket => exact absurd (List.cons.inj he).1.symm hbracket
  | plain _ hescape hbracket =>
    cases hother with
    | escaped => exact absurd (List.cons.inj he).1 hescape
    | bracketed => exact absurd (List.cons.inj he).1 hbracket
    | bracket => exact absurd (List.cons.inj he).1 hbracket
    | plain => rw [(List.cons.inj he).1]

theorem ReadsTo.unique (h : ReadsTo text items ahead) (hother : ReadsTo text others after) :
    items = others ∧ ahead = after := by
  obtain ⟨hitems, rfl, hend⟩ := h
  obtain ⟨hothers, happend, hendOther⟩ := hother
  induction hitems generalizing others with
  | nil ahead =>
    cases hothers with
    | nil => exact ⟨rfl, happend.symm⟩
    | cons hitem =>
      rw [List.flatten_cons, List.append_assoc] at happend
      exact absurd happend (hend _ _ hitem)
  | cons hitem _ ih =>
    rw [List.flatten_cons, List.append_assoc] at happend
    cases hothers with
    | nil => exact absurd happend.symm (hendOther _ _ hitem)
    | cons hitemOther hlater =>
      rw [List.flatten_cons, List.append_assoc] at happend
      obtain rfl := hitemOther.unique hitem happend
      obtain ⟨rfl, rfl⟩ := ih hend hlater (List.append_cancel_left happend)
      exact ⟨rfl, rfl⟩

/-- Every item takes away from the text, so the items come to an end. -/
theorem exists_readsTo (text : Text) : ∃ items ahead, ReadsTo text items ahead := by
  induction hlength : text.length using Nat.strongRecOn generalizing text with
  | _ n ih =>
    by_cases hend : Exhausted text
    · exact ⟨[], text, .nil text, rfl, hend⟩
    · simp only [Exhausted, not_forall, not_not] at hend
      obtain ⟨item, ahead, hitem, rfl⟩ := hend
      have hpos := List.length_pos_iff.2 hitem.ne_nil
      rw [List.length_append] at hlength
      obtain ⟨items, later, hitems, rfl, hexhausted⟩ := ih ahead.length (by omega) ahead rfl
      exact ⟨item :: items, later, .cons hitem hitems, by simp, hexhausted⟩

theorem Items.length_le (h : Items items ahead) : items.length ≤ items.flatten.length := by
  induction h with
  | nil => exact Nat.le_refl 0
  | cons hitem _ ih =>
    have hpos := List.length_pos_iff.2 hitem.ne_nil
    rw [List.flatten_cons, List.length_append, List.length_cons]
    omega

theorem regExp_eq_some_iff {tail lexeme rest : Text} (hempty : tail.head? ≠ some '/') :
    regExp ('/' :: tail) = some (lexeme, rest) ↔
      ∃ items ahead, ReadsTo tail items ('/' :: ahead) ∧ items ≠ [] ∧
        lexeme = '/' :: (items.flatten ++ '/' :: ahead.takeWhile Char.isAlpha) ∧
        rest = ahead.dropWhile Char.isAlpha := by
  rw [regExp_of_head hempty, Option.map_eq_some_iff]
  constructor
  · rintro ⟨⟨read, ahead⟩, hbody, he⟩
    obtain ⟨items, hreads, rfl⟩ := body_eq_some_iff.1 hbody
    obtain ⟨rfl, rfl⟩ := Prod.mk.inj he
    refine ⟨items, ahead, hreads, ?_, by simp [Text.run], rfl⟩
    rintro rfl
    exact hempty (by rw [← hreads.append_eq]; rfl)
  · rintro ⟨items, ahead, hreads, -, rfl, rfl⟩
    exact ⟨_, body_eq_some_iff.2 ⟨items, hreads, rfl⟩, by simp [extend, Text.run]⟩

end RegExp

/-- A literal of a run that begins with a slash is a regular expression from end to end. -/
theorem Lexer.regExp_of_mem_run {lexer : Lexer} {token : Token} (hmem : token ∈ lexer.run.tokens)
    (hkind : token.kind = .literal) (hslash : token.text.head? = some '/') :
    RegExp.regExp token.text = some (token.text, []) := by
  obtain ⟨before, later, hrun⟩ := List.append_of_mem hmem
  obtain ⟨now, after, -, hnext⟩ := exists_emits_of_run hrun
  obtain ⟨-, kind, lexeme, rest, hselect, rfl, -⟩ := next_eq_token_iff.1 hnext
  obtain ⟨tail, rfl⟩ : ∃ tail, lexeme = '/' :: tail := List.head?_eq_some_iff.1 hslash
  obtain rfl : kind = .literal := hkind
  have happend : '/' :: (tail ++ rest) = now.cursor.rest := (append_of_select hselect).2
  rw [selection, ← happend] at hselect
  obtain ⟨-, hother⟩ := slash_of_select hselect
  obtain ⟨hdivides, hbegins⟩ := hother (by decide)
  cases hexpression : now.context.expression with
  | true => cases (hdivides hexpression).1
  | false => exact (hbegins hexpression).2

/-- Behind an opening slash with no second one, a regular expression is found exactly where the items of
the text go up to a slash, and its length is that of all these and its flags. The walk by offsets comes to
an end with this length on every text, and so do the items, which can be read in one way only. No line
terminator stands in a regular expression of a run. -/
theorem regExps_read (text : Text) :
    (∀ tail, text = '/' :: tail → tail.head? ≠ some '/' → ∀ n,
      RegExp.regExpSize text = some (some n) ↔
        ∃ items ahead, RegExp.ReadsTo tail items ('/' :: ahead) ∧ items ≠ [] ∧
          n = Text.byteSize ('/' :: (items.flatten ++ ['/'])) +
            Text.byteSize (ahead.takeWhile Char.isAlpha)) ∧
    RegExp.regExpSize text = some ((RegExp.regExp text).map fun found => found.1.byteSize) ∧
    (∃ items ahead, RegExp.ReadsTo text items ahead ∧ items.length ≤ text.length ∧
      ∀ others after, RegExp.ReadsTo text others after → others = items ∧ after = ahead) ∧
    ∀ settings, ∀ token ∈ (Lexer.ofText text settings).run.tokens, token.kind = .literal →
      token.text.head? = some '/' → ∀ c ∈ token.text, c ≠ '\r' ∧ c ≠ '\n' := by
  have hmeasure := RegExp.measures_regExp text
  refine ⟨?_, hmeasure, ?_, ?_⟩
  · rintro tail rfl hempty n
    rw [hmeasure, Option.some.injEq, Option.map_eq_some_iff]
    constructor
    · rintro ⟨⟨lexeme, rest⟩, hfound, rfl⟩
      obtain ⟨items, ahead, hreads, hne, rfl, -⟩ := (RegExp.regExp_eq_some_iff hempty).1 hfound
      exact ⟨items, ahead, hreads, hne, by simp [Nat.add_assoc]⟩
    · rintro ⟨items, ahead, hreads, hne, rfl⟩
      refine ⟨_, (RegExp.regExp_eq_some_iff hempty).2 ⟨items, ahead, hreads, hne, rfl, rfl⟩, ?_⟩
      simp [Nat.add_assoc]
  · obtain ⟨items, ahead, hreads⟩ := RegExp.exists_readsTo text
    refine ⟨items, ahead, hreads, ?_, fun others after hother => hother.unique hreads⟩
    have hlength := hreads.read.length_le
    rw [← hreads.append_eq, List.length_append]
    omega
  · intro settings token hmem hkind hslash c hc
    have hline := RegExp.oneLine_regExp (Lexer.regExp_of_mem_run hmem hkind hslash) c hc
    simpa [isLineTerminator, and_comm] using hline

/-- A slash in a class does not close the expression, and a bracket that opens no class does not keep a
slash from closing it. -/
theorem regExps_read_brackets :
    let whole : Text := ['/', '[', 'a', '/', ']', '\\', '/', '/', 'g', ';']
    let opened : Text := ['/', '[', '/']
    let settings : Settings := { edition := .es5 }
    let token : Token := ⟨.literal, opened, ⟨0, 3, ⟨1, 1⟩⟩⟩
    whole.tail.head? ≠ some '/' ∧ opened.tail.head? ≠ some '/' ∧
      RegExp.regExpSize whole = some (some 9) ∧ RegExp.regExpSize opened = some (some 3) ∧
      token ∈ (Lexer.ofText opened settings).run.tokens ∧
      ∀ c ∈ token.text, c ≠ '\r' ∧ c ≠ '\n' := by
  intro whole opened settings token
  have hwhole : whole.tail.head? ≠ some '/' := by decide
  have hopened : opened.tail.head? ≠ some '/' := by decide
  have hclass : RegExp.ClosesClass ['a', '/', ']'] :=
    .plain (by decide) (by decide) rfl (.plain (by decide) (by decide) rfl .close)
  have hitems : RegExp.Items [['[', 'a', '/', ']'], ['\\', '/']] ['/', 'g', ';'] :=
    .cons (.bracketed hclass _) (.cons (.escaped rfl _) (.nil _))
  have hbracket : RegExp.Items [['[']] ['/'] :=
    .cons (.bracket (RegExp.recognizes_classBody.munches.eq_none_iff.1 (by decide))) (.nil _)
  have hmem : token ∈ (Lexer.ofText opened settings).run.tokens := by decide +kernel
  refine ⟨hwhole, hopened, ?_, ?_, hmem, ?_⟩
  · exact ((regExps_read whole).1 _ rfl hwhole 9).2
      ⟨_, _, ⟨hitems, rfl, RegExp.exhausted_slash _⟩, by decide, by decide⟩
  · exact ((regExps_read opened).1 _ rfl hopened 3).2
      ⟨_, _, ⟨hbracket, rfl, RegExp.exhausted_slash _⟩, by decide, by decide⟩
  · exact (regExps_read opened).2.2.2 settings token hmem rfl rfl

end EcmaLex
