import EcmaLex.Proofs.Nesting

/-!
# Braces and interpolations over a whole run

In every state that calls can lead to, each brace and each piece of a template emitted so far closes
what was opened last, and the nesting counts what is still open, as long as no more left braces are open
at once in the same code than a counter holds. No source below four gibibytes has so many. With `2 ^ 32`
of them the counter is at zero again, and a right brace that closes the last of them is called unmatched.
-/

namespace EcmaLex

/-- At some point of a run more left braces were open in the same code than a counter can hold. -/
def Overrun (kinds : List TokenKind) : Prop :=
  ∃ before openers, before <+: kinds ∧ unmatched before = some openers ∧
    ∃ count ∈ braceCounts openers, 2 ^ 32 ≤ count

theorem Overrun.concat {kinds : List TokenKind} (h : Overrun kinds) (kind : TokenKind) :
    Overrun (kinds ++ [kind]) := by
  obtain ⟨before, openers, hbefore, hread⟩ := h
  exact ⟨before, openers, hbefore.trans (List.prefix_append _ _), hread⟩

/-- A token opens one thing at most. -/
theorem Opener.length_after_le {openers now : List Opener} {kind : TokenKind}
    (h : Opener.after openers kind = some now) : now.length ≤ openers.length + 1 := by
  unfold Opener.after at h
  split at h <;> cases h <;> simp <;> omega

theorem length_openers_le {kinds : List TokenKind} {start openers : List Opener}
    (h : kinds.foldlM Opener.after start = some openers) :
    openers.length ≤ start.length + kinds.length := by
  induction kinds generalizing start with
  | nil =>
    obtain rfl : start = openers := Option.some.inj h
    exact Nat.le_refl _
  | cons kind kinds ih =>
    rw [List.foldlM_cons] at h
    obtain ⟨now, hafter, hlater⟩ := Option.bind_eq_some_iff.1 h
    have hone := Opener.length_after_le hafter
    have hmore := ih hlater
    rw [List.length_cons]
    omega

theorem Overrun.le_length {kinds : List TokenKind} (h : Overrun kinds) : 2 ^ 32 ≤ kinds.length := by
  obtain ⟨before, openers, hbefore, hread, count, hmem, hcount⟩ := h
  have hfirst := le_length_of_mem_braceCounts hmem
  have hsecond := length_openers_le hread
  have hthird := hbefore.length_le
  rw [List.length_nil] at hsecond
  omega

/-- What is open after the tokens so far, and what the next call makes of it. -/
structure Disciplined (tokens : List Token) (lexer : Lexer) (openers : List Opener) : Prop where
  /-- Each token so far closes, or goes on with, what was innermost. -/
  matched : unmatched (tokens.map Token.kind) = some openers
  depth_eq : lexer.context.nesting.depth = 1 + openers.count .interpolation
  /-- The counters are the numbers of left braces between the open interpolations. -/
  counters_eq : lexer.context.nesting.counters.map UInt32.toNat =
    (openers.splitOn .interpolation).map List.length
  /-- A right brace is unmatched exactly where nothing is open. -/
  unmatched_iff : lexer.settings.edition.includes .es5 = true →
    lexer.iterations < lexer.settings.iterationLimit →
      ((∃ span, lexer.next.1 = some (.error (.unmatchedBrace span))) ↔
        lexer.finished = false ∧ lexer.cursor.rest.head? = some '}' ∧ openers = [])

namespace Lexer

theorem Live.next_of_fail {lexer : Lexer} (hlive : lexer.Live) {diagnosis : Diagnosis}
    {lexeme rest : Text}
    (hselect : lexer.selection = some { action := .fail diagnosis, lexeme, rest }) :
    lexer.next.1 = some (.error (diagnosis.fault lexeme (lexer.cursor.spanOf lexeme))) := by
  have hcall := call_next lexer
  generalize lexer.next = pair at hcall
  obtain ⟨result, after⟩ := pair
  cases hcall with
  | stopped h => rw [hlive.running] at h; cases h
  | ended _ h => exact absurd h hlive.ahead
  | limited _ _ h => exact absurd hlive.within (UInt64.not_lt.2 h)
  | unrecognized _ h => rw [h] at hselect; cases hselect
  | emitted _ h => rw [h] at hselect; cases hselect
  | failed _ h =>
    rw [h] at hselect
    cases hselect
    rfl

/-- A call fails with an unmatched brace exactly where a live lexer selects that fault. -/
theorem next_unmatchedBrace_iff (lexer : Lexer) :
    (∃ span, lexer.next.1 = some (.error (.unmatchedBrace span))) ↔
      lexer.Live ∧ ∃ lexeme rest,
        lexer.selection = some { action := .fail .unmatchedBrace, lexeme, rest } := by
  constructor
  · intro hfails
    obtain ⟨span, hspan⟩ := hfails
    have hcall := call_next lexer
    generalize lexer.next = pair at hcall hspan
    obtain ⟨result, after⟩ := pair
    cases hcall with
    | stopped => cases hspan
    | ended => cases hspan
    | limited => cases hspan
    | unrecognized => cases hspan
    | emitted => cases hspan
    | @failed hlive diagnosis lexeme rest hselect =>
      cases diagnosis with
      | unmatchedBrace => exact ⟨hlive, lexeme, rest, hselect⟩
      | malformedNumeral => cases hspan
      | unfinished => cases hspan
  · intro hfound
    obtain ⟨hlive, lexeme, rest, hselect⟩ := hfound
    exact ⟨_, hlive.next_of_fail hselect⟩

end Lexer

/-- The nesting mirrors what is open, and interpolations are only open in editions that have them. -/
structure Nested (edition : Edition) (kinds : List TokenKind) (context : Context)
    (openers : List Opener) : Prop where
  matched : unmatched kinds = some openers
  mirrors : context.nesting.Mirrors openers
  since : .interpolation ∈ openers → edition.includes .es2015 = true

namespace Nested

variable {edition : Edition} {kinds : List TokenKind} {context : Context} {openers : List Opener}

theorem initial (edition : Edition) : Nested edition [] .initial [] :=
  ⟨rfl, Nesting.mirrors_empty, fun h => absurd h (List.not_mem_nil)⟩

theorem includes_of_outer_ne_nil (h : Nested edition kinds context openers)
    (houter : context.nesting.outer ≠ []) : edition.includes .es2015 = true := by
  apply h.since
  have hdepth := h.mirrors.depth_eq
  have hpos := List.length_pos_iff.2 houter
  unfold Nesting.depth at hdepth
  exact List.count_pos_iff.1 (by omega)

theorem mem_of_after {earlier now : List Opener} {kind : TokenKind}
    (h : Opener.after earlier kind = some now) (hmem : .interpolation ∈ now) :
    kind = .templateStart ∨ .interpolation ∈ earlier := by
  unfold Opener.after at h
  split at h <;> simp only [reduceCtorEq, Option.some.injEq] at h <;> subst h <;> simp_all

/-- One more token keeps the nesting a mirror, as long as the counters hold what is open. -/
theorem emit (h : Nested edition kinds context openers) {text lexeme rest : Text}
    {kind : TokenKind}
    (hselect : select edition context text = some { action := .emit kind, lexeme, rest })
    (hholds : ¬ Overrun (kinds ++ [kind])) :
    ∃ now, Nested edition (kinds ++ [kind]) (context.observe kind) now := by
  obtain ⟨rule, hmem, hsince, hguard, haction, -⟩ := exists_of_select hselect
  have hadmits := admits_of_guard context rule hmem hguard kind haction
  have hfits : kind = .leftBrace → context.nesting.top.toNat + 1 < 2 ^ 32 := by
    rintro rfl
    refine Nat.not_le.1 fun hover => hholds ?_
    obtain ⟨count, counts, hcounts⟩ := exists_braceCounts_eq openers
    have hmirrors := h.mirrors
    unfold Nesting.Mirrors Nesting.counters at hmirrors
    rw [hcounts, List.map_cons, List.cons.injEq] at hmirrors
    refine ⟨kinds ++ [.leftBrace], .brace :: openers, List.prefix_refl _, ?_, count + 1, ?_, ?_⟩
    · rw [unmatched_concat, h.matched]
      rfl
    · rw [braceCounts_brace hcounts]
      exact List.mem_cons_self
    · omega
  obtain ⟨now, hafter, hmirrors⟩ := h.mirrors.after hadmits hfits
  refine ⟨now, ?_, ?_, ?_⟩
  · rw [unmatched_concat, h.matched]
    exact hafter
  · rw [Context.nesting_observe]
    exact hmirrors
  · intro hopen
    rcases mem_of_after hafter hopen with rfl | hearlier
    · exact includes_of_emit_templateStart edition rule hmem hsince haction
    · exact h.since hearlier

theorem disciplined {tokens : List Token} {lexer : Lexer}
    (h : Nested edition (tokens.map Token.kind) lexer.context openers)
    (hedition : lexer.settings.edition = edition) : Disciplined tokens lexer openers := by
  subst hedition
  refine ⟨h.matched, h.mirrors.depth_eq, h.mirrors, fun hes5 hwithin => ?_⟩
  rw [Lexer.next_unmatchedBrace_iff, h.mirrors.openers_eq_nil_iff]
  have hselect := @select_unmatchedBrace_iff _ _ lexer.cursor.rest hes5 h.includes_of_outer_ne_nil
  constructor
  · intro hfails
    exact ⟨hfails.1.running, hselect.1 hfails.2⟩
  · intro hempty
    have hahead : lexer.cursor.rest ≠ [] := by
      intro hnil
      rw [hnil] at hempty
      cases hempty.2.1
    exact ⟨⟨hempty.1, hahead, hwithin⟩, hselect.2 hempty.2⟩

end Nested

theorem nested_calls (source : Text) (settings : Settings) (n : Nat)
    (hholds : ¬ Overrun (((Lexer.ofText source settings).calls n).1.map Token.kind)) :
    ∃ openers, Nested settings.edition
      (((Lexer.ofText source settings).calls n).1.map Token.kind)
      ((Lexer.ofText source settings).calls n).2.context openers := by
  revert hholds
  refine Lexer.calls_induction
    (P := fun tokens _ context => ¬ Overrun (tokens.map Token.kind) →
      ∃ openers, Nested settings.edition (tokens.map Token.kind) context openers) ?_ ?_ n
  · exact fun _ => ⟨[], Nested.initial _⟩
  · intro tokens now kind lexeme rest h hsettings hselect hholds
    rw [List.map_append] at hholds ⊢
    obtain ⟨openers, hnested⟩ := h fun hover => hholds (hover.concat kind)
    unfold Lexer.selection at hselect
    rw [hsettings] at hselect
    exact hnested.emit hselect hholds

/-- The texts of tokens take at least a byte each. -/
theorem Tiles.length_le {source : Text} {start stop : Nat} {tokens : List Token}
    (h : Tiles source start tokens stop) : start + tokens.length ≤ stop := by
  induction tokens generalizing start with
  | nil => exact Nat.le_of_eq h
  | cons token tokens ih =>
    obtain ⟨hstart, hsize, -, hlater⟩ := h
    have := ih hlater
    rw [List.length_cons]
    omega

theorem length_calls_le (source : Text) (settings : Settings) (n : Nat) :
    ((Lexer.ofText source settings).calls n).1.length ≤ source.byteSize := by
  have h := partition_calls source settings n
  have hlength := h.tiles.length_le
  have hsource := congrArg Text.byteSize h.stands.source_eq
  rw [h.source_eq, Text.byteSize_append, ← h.stands.position_eq] at hsource
  omega

/-- A source below four gibibytes never has more left braces open than a counter holds. -/
theorem not_overrun_calls {source : Text} (hsize : source.byteSize < 2 ^ 32) (settings : Settings)
    (n : Nat) : ¬ Overrun (((Lexer.ofText source settings).calls n).1.map Token.kind) := by
  intro hover
  have hmany := hover.le_length
  have htokens := length_calls_le source settings n
  rw [List.length_map] at hmany
  omega

/-- Whatever is called how often, the tokens so far close what is innermost and the nesting counts
what is open, as long as no counter has had to hold more than it can. In a source below four gibibytes
none ever has. -/
theorem nesting_counts_unmatched (source : Text) (settings : Settings) (n : Nat) :
    let state := (Lexer.ofText source settings).calls n
    (source.byteSize < 2 ^ 32 → ¬ Overrun (state.1.map Token.kind)) ∧
      (¬ Overrun (state.1.map Token.kind) → ∃ openers, Disciplined state.1 state.2 openers) := by
  refine ⟨fun hsize => not_overrun_calls hsize settings n, fun hholds => ?_⟩
  obtain ⟨openers, hnested⟩ := nested_calls source settings n hholds
  have hsettings := Lexer.settings_calls (Lexer.ofText source settings) n
  exact ⟨openers, hnested.disciplined (congrArg Settings.edition hsettings)⟩

/-- A brace is open in an interpolation, and another outside it. -/
theorem nesting_counts_unmatched_interpolation :
    let source : Text := ['{', Template.backquote, '$', '{', '{', 'x', '}', '}']
    let state := (Lexer.ofText source { edition := .es2015 }).calls 3
    source.byteSize < 2 ^ 32 ∧ ¬ Overrun (state.1.map Token.kind) ∧
      state.2.context.nesting = ⟨1, [1]⟩ ∧ ∃ openers, Disciplined state.1 state.2 openers := by
  intro source state
  have hsize : source.byteSize < 2 ^ 32 := by decide
  obtain ⟨hbelow, hcounts⟩ := nesting_counts_unmatched source { edition := .es2015 } 3
  exact ⟨hsize, hbelow hsize, by decide +kernel, hcounts (hbelow hsize)⟩

theorem unmatched_leftBraces (n : Nat) :
    unmatched (List.replicate n .leftBrace) = some (List.replicate n .brace) := by
  induction n with
  | zero => rfl
  | succ n ih =>
    rw [List.replicate_succ', unmatched_concat, ih]
    rfl

/-- Left braces are read one by one, and all that they leave behind is what the counter makes of their number. -/
theorem Lexer.emits_leftBraces {lexer : Lexer} (hes5 : lexer.settings.edition.includes .es5 = true)
    {n : Nat} {rest : Text} (hallows : lexer.Allows n)
    (hrest : lexer.cursor.rest = List.replicate n '{' ++ rest) :
    ∃ tokens last, Emits lexer tokens last ∧ tokens.map Token.kind = List.replicate n .leftBrace ∧
      last.cursor.rest = rest ∧ last.context.nesting = { lexer.context.nesting with
        top := lexer.context.nesting.top + UInt32.ofNat n } := by
  induction n generalizing lexer with
  | zero => exact ⟨[], lexer, .nil, rfl, hrest, by simp⟩
  | succ n ih =>
    rw [List.replicate_succ, List.cons_append] at hrest
    have hselect : lexer.selection =
        some { action := .emit .leftBrace, lexeme := ['{'], rest := List.replicate n '{' ++ rest } := by
      rw [selection, hrest, select_leftBrace hes5]
    have hfirst := emits_of_selection hallows hselect
    obtain ⟨tokens, last, hlater, hkinds, hlast, hnesting⟩ := @ih (lexer.past _ _ _) hes5
      (hallows.past _ _ _) rfl
    refine ⟨_, last, hfirst.append hlater, ?_, hlast, ?_⟩
    · rw [List.map_append, hkinds]
      rfl
    · have htop : (lexer.context.observe .leftBrace).nesting = lexer.context.nesting.openBrace := rfl
      have hsum : UInt32.ofNat (n + 1) = 1 + UInt32.ofNat n := by
        rw [Nat.add_comm, UInt32.ofNat_add]
        rfl
      rw [hnesting, context_past, htop, hsum, ← UInt32.add_assoc]
      rfl

/-- After left braces alone a lexer that may apply one more rule stands before what follows them. -/
theorem Lexer.calls_leftBraces {n : Nat} {settings : Settings} {c : Char}
    (hes5 : settings.edition.includes .es5 = true) (hlimit : n < settings.iterationLimit.toNat) :
    let state := (ofText (List.replicate n '{' ++ [c]) settings).calls n
    state.1.map Token.kind = List.replicate n .leftBrace ∧ state.2.Live ∧
      state.2.settings = settings ∧ state.2.cursor.rest = [c] ∧
      state.2.context.nesting = { Nesting.empty with top := UInt32.ofNat n } := by
  intro state
  have hallows : (ofText (List.replicate n '{' ++ [c]) settings).Allows (n + 1) :=
    ⟨rfl, by show 0 + (n + 1) ≤ settings.iterationLimit.toNat; omega⟩
  obtain ⟨tokens, last, hemits, hkinds, hrest, hnesting⟩ :=
    emits_leftBraces hes5 ⟨rfl, Nat.le_trans (Nat.le_succ _) hallows.within⟩ rfl
  have hlength : tokens.length = n := by
    rw [← List.length_map, hkinds, List.length_replicate]
  have hstate : state = (tokens, last) := by
    have hcalls := hemits.calls_length
    rwa [hlength] at hcalls
  have hone : last.Allows 1 := hemits.allows (by rw [hlength]; exact hallows)
  rw [hstate]
  refine ⟨hkinds, hone.live ?_, hemits.settings_eq, hrest, ?_⟩
  · rw [hrest]
    exact List.cons_ne_nil _ _
  · rw [hnesting]
    exact congrArg (fun top => { Nesting.empty with top }) (UInt32.zero_add _)

/-- With as many left braces open as start the counter over, nothing is open for the nesting, and a right brace
is called unmatched. -/
theorem unmatchedBrace_of_leftBraces {n : Nat} (hne : n ≠ 0) (hover : UInt32.ofNat n = 0)
    {settings : Settings} (hes5 : settings.edition.includes .es5 = true)
    (hlimit : n < settings.iterationLimit.toNat) :
    let state := (Lexer.ofText (List.replicate n '{' ++ ['}']) settings).calls n
    unmatched (state.1.map Token.kind) = some (List.replicate n .brace) ∧
      state.2.context.nesting = .empty ∧
      (∃ span, state.2.next.1 = some (.error (.unmatchedBrace span))) ∧
      ¬ ∃ openers, Disciplined state.1 state.2 openers := by
  intro state
  obtain ⟨hkinds, hlive, hsettings, hrest, hnesting⟩ :=
    @Lexer.calls_leftBraces n settings '}' hes5 hlimit
  have hempty : state.2.context.nesting = .empty := by
    rw [hnesting, hover]
    rfl
  have hfails : ∃ span, state.2.next.1 = some (.error (.unmatchedBrace span)) := by
    have houter : state.2.context.nesting.outer = [] := by rw [hempty]; rfl
    refine (Lexer.next_unmatchedBrace_iff state.2).2 ⟨hlive, ?_⟩
    rw [Lexer.selection, hsettings, hrest]
    exact (select_unmatchedBrace_iff hes5 fun hinside => absurd houter hinside).2
      ⟨rfl, by rw [hempty]; rfl, houter⟩
  have hopen : unmatched (state.1.map Token.kind) = some (List.replicate n .brace) := by
    rw [hkinds, unmatched_leftBraces]
  refine ⟨hopen, hempty, hfails, fun hdisciplined => ?_⟩
  obtain ⟨openers, h⟩ := hdisciplined
  obtain ⟨-, -, hnil⟩ := (h.unmatched_iff (by rw [hsettings]; exact hes5) hlive.within).1 hfails
  have hmatched := h.matched
  rw [hopen, hnil, Option.some.injEq, List.replicate_eq_nil_iff] at hmatched
  exact hne hmatched

/-- After `2 ^ 32` left braces nothing is open for the nesting, while all of them are for the tokens, and the
right brace behind them is called unmatched. A lexer that such a fault has stopped gives nothing more, though
the same right brace is still ahead and nothing is open. -/
theorem nesting_starts_over :
    let source : Text := List.replicate (2 ^ 32) '{' ++ ['}']
    let state := (Lexer.ofText source { iterationLimit := 8589934592 }).calls (2 ^ 32)
    let stopped := (Lexer.ofText ['}'] {}).calls 1
    (unmatched (state.1.map Token.kind) = some (List.replicate (2 ^ 32) .brace) ∧
        state.2.context.nesting = .empty ∧
        (∃ span, state.2.next.1 = some (.error (.unmatchedBrace span))) ∧
        ¬ ∃ openers, Disciplined state.1 state.2 openers) ∧
      unmatched (stopped.1.map Token.kind) = some [] ∧
        stopped.2.iterations < stopped.2.settings.iterationLimit ∧
        stopped.2.cursor.rest.head? = some '}' ∧ stopped.2.next.1 = none :=
  ⟨unmatchedBrace_of_leftBraces (by decide) (by decide) (by decide) (by decide), by decide +kernel⟩

end EcmaLex
