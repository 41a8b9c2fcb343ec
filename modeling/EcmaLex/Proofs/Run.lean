import EcmaLex.Lexer

/-!
# Runs of the scanner

`Emits` composes the calls that give tokens, so that a run can be cut and joined. `calls` counts
calls of any outcome, those after the end and after a fault included. What holds of the start and is
kept by every selection of a token holds after any number of calls: `calls_induction`.
-/

namespace EcmaLex.Lexer

/-- The token that a lexer makes of a lexeme ahead of it. -/
def tokenOf (lexer : Lexer) (kind : TokenKind) (lexeme : Text) : Token :=
  { kind, text := lexeme, span := lexer.cursor.spanOf lexeme }

/-- The lexer after it has emitted a lexeme. -/
def past (lexer : Lexer) (kind : TokenKind) (lexeme rest : Text) : Lexer :=
  { lexer with
    cursor := lexer.cursor.advance lexeme rest
    context := lexer.context.observe kind
    iterations := lexer.iterations + 1 }

@[simp] theorem rest_past (lexer : Lexer) (kind : TokenKind) (lexeme rest : Text) :
    (lexer.past kind lexeme rest).cursor.rest = rest := rfl

@[simp] theorem context_past (lexer : Lexer) (kind : TokenKind) (lexeme rest : Text) :
    (lexer.past kind lexeme rest).context = lexer.context.observe kind := rfl

@[simp] theorem settings_past (lexer : Lexer) (kind : TokenKind) (lexeme rest : Text) :
    (lexer.past kind lexeme rest).settings = lexer.settings := rfl

@[simp] theorem finished_past (lexer : Lexer) (kind : TokenKind) (lexeme rest : Text) :
    (lexer.past kind lexeme rest).finished = lexer.finished := rfl

@[simp] theorem iterations_past (lexer : Lexer) (kind : TokenKind) (lexeme rest : Text) :
    (lexer.past kind lexeme rest).iterations = lexer.iterations + 1 := rfl

/-- A lexer that may still apply a rule to the text ahead. -/
structure Live (lexer : Lexer) : Prop where
  running : lexer.finished = false
  ahead : lexer.cursor.rest ≠ []
  within : lexer.iterations < lexer.settings.iterationLimit

/-- What the rules select where a lexer stands. -/
def selection (lexer : Lexer) : Option Selection :=
  select lexer.settings.edition lexer.context lexer.cursor.rest

/-- Everything one call can do, and under which conditions. -/
inductive Call (lexer : Lexer) : Option (Except Fault Token) → Lexer → Prop where
  | stopped (h : lexer.finished = true) : Call lexer none lexer
  | ended (hrun : lexer.finished = false) (hrest : lexer.cursor.rest = []) :
      Call lexer none { lexer with finished := true }
  | limited (hrun : lexer.finished = false) (hrest : lexer.cursor.rest ≠ [])
      (hlimit : lexer.settings.iterationLimit ≤ lexer.iterations) :
      Call lexer
        (some (.error (.iterationLimit lexer.settings.iterationLimit
          (lexer.cursor.spanOf lexer.cursor.rest))))
        { lexer with finished := true }
  | unrecognized (hlive : lexer.Live) (hselect : lexer.selection = none) :
      Call lexer
        (some (.error (.unrecognized lexer.cursor.rest.firstLine
          (lexer.cursor.spanOf (lexer.cursor.rest.take 1)))))
        { lexer with iterations := lexer.iterations + 1, finished := true }
  | emitted (hlive : lexer.Live) {kind : TokenKind} {lexeme rest : Text}
      (hselect : lexer.selection = some { action := .emit kind, lexeme, rest }) :
      Call lexer (some (.ok (lexer.tokenOf kind lexeme))) (lexer.past kind lexeme rest)
  | failed (hlive : lexer.Live) {diagnosis : Diagnosis} {lexeme rest : Text}
      (hselect : lexer.selection = some { action := .fail diagnosis, lexeme, rest }) :
      Call lexer (some (.error (diagnosis.fault lexeme (lexer.cursor.spanOf lexeme))))
        { lexer with iterations := lexer.iterations + 1, finished := true }

theorem call_next (lexer : Lexer) : Call lexer lexer.next.1 lexer.next.2 := by
  unfold next
  by_cases hrun : lexer.finished = true
  · rw [if_pos hrun]
    exact .stopped hrun
  · have hrun' : lexer.finished = false := by simpa using hrun
    rw [if_neg hrun]
    by_cases hrest : lexer.cursor.rest = []
    · have hend : lexer.cursor.atEnd = true := by simp [Cursor.atEnd, hrest]
      rw [if_pos hend]
      exact .ended hrun' hrest
    · have hend : ¬ lexer.cursor.atEnd = true := by simpa [Cursor.atEnd] using hrest
      rw [if_neg hend]
      by_cases hlimit : lexer.settings.iterationLimit ≤ lexer.iterations
      · simp only [step, if_pos hlimit]
        exact .limited hrun' hrest hlimit
      · have hlive : lexer.Live := ⟨hrun', hrest, UInt64.not_le.1 hlimit⟩
        cases hselect : lexer.selection with
        | none =>
          have h := hselect
          unfold selection at h
          simp only [step, if_neg hlimit, h]
          exact .unrecognized hlive hselect
        | some found =>
          obtain ⟨action, lexeme, rest⟩ := found
          have h := hselect
          unfold selection at h
          cases action with
          | emit kind =>
            simp only [step, if_neg hlimit, h]
            exact .emitted hlive hselect
          | fail diagnosis =>
            simp only [step, if_neg hlimit, h]
            exact .failed hlive hselect

theorem call_of_next {lexer after : Lexer} {result : Option (Except Fault Token)}
    (h : lexer.next = (result, after)) : Call lexer result after := by
  have hcall := call_next lexer
  rwa [h] at hcall

/-- Nothing else is done by a call. -/
theorem Call.next_eq {lexer after : Lexer} {result : Option (Except Fault Token)}
    (h : Call lexer result after) : lexer.next = (result, after) := by
  have hend : lexer.cursor.rest ≠ [] → ¬ lexer.cursor.atEnd = true := by simp [Cursor.atEnd]
  have hlive : lexer.Live → ¬ lexer.finished = true ∧ ¬ lexer.cursor.atEnd = true ∧
      ¬ lexer.settings.iterationLimit ≤ lexer.iterations := fun h =>
    ⟨by rw [h.running]; decide, hend h.ahead, UInt64.not_le.2 h.within⟩
  cases h with
  | stopped hstop => rw [next, if_pos hstop]
  | ended hrun hrest =>
    rw [next, if_neg (by rw [hrun]; decide), if_pos (by rw [Cursor.atEnd, hrest]; rfl)]
  | limited hrun hrest hlimit =>
    rw [next, if_neg (by rw [hrun]; decide), if_neg (hend hrest)]
    simp only [step, if_pos hlimit]
  | unrecognized h hselect =>
    obtain ⟨hrun, hend, hlimit⟩ := hlive h
    unfold selection at hselect
    simp only [next, if_neg hrun, if_neg hend, step, if_neg hlimit, hselect]
  | emitted h hselect =>
    obtain ⟨hrun, hend, hlimit⟩ := hlive h
    unfold selection at hselect
    simp only [next, if_neg hrun, if_neg hend, step, if_neg hlimit, hselect, tokenOf, past]
  | failed h hselect =>
    obtain ⟨hrun, hend, hlimit⟩ := hlive h
    unfold selection at hselect
    simp only [next, if_neg hrun, if_neg hend, step, if_neg hlimit, hselect]

theorem Call.settings_eq {lexer after : Lexer} {result : Option (Except Fault Token)}
    (h : Call lexer result after) : after.settings = lexer.settings := by
  cases h <;> rfl

/-- The same lexer, under other settings from here on. -/
def withSettings (lexer : Lexer) (settings : Settings) : Lexer :=
  { lexer with settings }

/-- A call does the same under other settings that select the same, if the limit still allows it. The fault of
the limit names the limit, and so is only the same under the same one. -/
theorem Call.withSettings {lexer after : Lexer} {result : Option (Except Fault Token)}
    (h : Call lexer result after) {settings : Settings}
    (hselection : (lexer.withSettings settings).selection = lexer.selection)
    (hlimited : ∀ limit span, result = some (.error (.iterationLimit limit span)) →
      settings.iterationLimit = lexer.settings.iterationLimit)
    (hwithin : result ≠ none → lexer.iterations < lexer.settings.iterationLimit →
      lexer.iterations < settings.iterationLimit) :
    Call (lexer.withSettings settings) result (after.withSettings settings) := by
  have hlive : result ≠ none → lexer.Live → (lexer.withSettings settings).Live :=
    fun hne hlive => ⟨hlive.running, hlive.ahead, hwithin hne hlive.within⟩
  cases h with
  | stopped hstop => exact .stopped hstop
  | ended hrun hrest => exact .ended hrun hrest
  | limited hrun hrest hlimit =>
    rw [← hlimited _ _ rfl] at hlimit ⊢
    exact .limited hrun hrest hlimit
  | unrecognized h hselect => exact .unrecognized (hlive nofun h) (hselection.trans hselect)
  | emitted h hselect => exact .emitted (hlive nofun h) (hselection.trans hselect)
  | failed h hselect => exact .failed (hlive nofun h) (hselection.trans hselect)

/-- A call gives a token exactly where a live lexer selects a lexeme to emit. -/
theorem next_eq_token_iff {lexer after : Lexer} {token : Token} :
    lexer.next = (some (.ok token), after) ↔
      lexer.Live ∧ ∃ kind lexeme rest,
        lexer.selection = some { action := .emit kind, lexeme, rest } ∧
          token = lexer.tokenOf kind lexeme ∧ after = lexer.past kind lexeme rest := by
  constructor
  · intro h
    cases call_of_next h with
    | emitted hlive hselect => exact ⟨hlive, _, _, _, hselect, rfl, rfl⟩
  · rintro ⟨hlive, kind, lexeme, rest, hselect, rfl, rfl⟩
    exact (Call.emitted hlive hselect).next_eq

/-- Calls that give `tokens`, one after the other, and lead from `lexer` to `after`. -/
inductive Emits : Lexer → List Token → Lexer → Prop where
  | nil {lexer : Lexer} : Emits lexer [] lexer
  | cons {lexer mid after : Lexer} {token : Token} {tokens : List Token}
      (first : lexer.next = (some (.ok token), mid)) (later : Emits mid tokens after) :
      Emits lexer (token :: tokens) after

theorem Emits.append {lexer mid after : Lexer} {first last : List Token}
    (h : Emits lexer first mid) (h' : Emits mid last after) :
    Emits lexer (first ++ last) after := by
  induction h with
  | nil => exact h'
  | cons hnext _ ih => exact .cons hnext (ih h')

/-- A row of tokens can be cut anywhere. -/
theorem Emits.exists_of_append {lexer after : Lexer} {first last : List Token}
    (h : Emits lexer (first ++ last) after) : ∃ mid, Emits lexer first mid ∧ Emits mid last after := by
  induction first generalizing lexer with
  | nil => exact ⟨lexer, .nil, h⟩
  | cons token first ih =>
    cases h with
    | cons hnext hlater =>
      obtain ⟨mid, hfirst, hlast⟩ := ih hlater
      exact ⟨mid, .cons hnext hfirst, hlast⟩

theorem emits_singleton {lexer after : Lexer} {token : Token}
    (h : lexer.next = (some (.ok token), after)) : Emits lexer [token] after :=
  .cons h .nil

/-- What a lexer emits first, a run begins with. -/
theorem Emits.run_eq {lexer after : Lexer} {tokens : List Token} (h : Emits lexer tokens after) :
    lexer.run = { after.run with tokens := tokens ++ after.run.tokens } := by
  induction h with
  | nil => rfl
  | @cons lexer mid after token tokens hnext _ ih =>
    rw [run]
    split
    · next he => simp [hnext] at he
    · next he => simp [hnext] at he
    · next he =>
      rw [hnext] at he
      simp only [Prod.mk.injEq, Option.some.injEq, Except.ok.injEq] at he
      obtain ⟨rfl, rfl⟩ := he
      rw [ih]
      rfl

theorem run_of_next_none {lexer final : Lexer} (h : lexer.next = (none, final)) :
    lexer.run = { tokens := [], fault := none, final } := by
  rw [run]
  split
  · next he =>
    rw [h] at he
    simp only [Prod.mk.injEq, true_and] at he
    rw [he]
  · next he => simp [h] at he
  · next he => simp [h] at he

theorem run_of_next_error {lexer final : Lexer} {fault : Fault}
    (h : lexer.next = (some (.error fault), final)) :
    lexer.run = { tokens := [], fault := some fault, final } := by
  rw [run]
  split
  · next he => simp [h] at he
  · next he =>
    rw [h] at he
    simp only [Prod.mk.injEq, Option.some.injEq, Except.error.injEq] at he
    rw [he.1, he.2]
  · next he => simp [h] at he

/-- A run is a row of tokens, and then a call that gives none. -/
theorem exists_emits_run (lexer : Lexer) :
    ∃ last, Emits lexer lexer.run.tokens last ∧
      last.next = (lexer.run.fault.map Except.error, lexer.run.final) := by
  fun_induction run lexer with
  | case1 lexer final h => exact ⟨lexer, .nil, h⟩
  | case2 lexer fault final h => exact ⟨lexer, .nil, h⟩
  | case3 lexer token after h later ih =>
    obtain ⟨last, hemits, hnext⟩ := ih
    exact ⟨last, .cons h hemits, hnext⟩

theorem Emits.settings_eq {lexer after : Lexer} {tokens : List Token}
    (h : Emits lexer tokens after) : after.settings = lexer.settings := by
  induction h with
  | nil => rfl
  | cons hnext _ ih =>
    obtain ⟨-, _, _, _, -, -, rfl⟩ := next_eq_token_iff.1 hnext
    exact ih

theorem Emits.finished_eq {lexer after : Lexer} {tokens : List Token}
    (h : Emits lexer tokens after) : after.finished = lexer.finished := by
  induction h with
  | nil => rfl
  | cons hnext _ ih =>
    obtain ⟨-, _, _, _, -, -, rfl⟩ := next_eq_token_iff.1 hnext
    exact ih

/-- The lexer goes on, and may apply `count` more rules. -/
structure Allows (lexer : Lexer) (count : Nat) : Prop where
  running : lexer.finished = false
  within : lexer.iterations.toNat + count ≤ lexer.settings.iterationLimit.toNat

theorem Allows.live {lexer : Lexer} {count : Nat} (h : lexer.Allows (count + 1))
    (hrest : lexer.cursor.rest ≠ []) : lexer.Live := by
  have hwithin := h.within
  refine ⟨h.running, hrest, UInt64.lt_iff_toNat_lt.2 ?_⟩
  omega

/-- Below the limit the count of rules applied does not start over. -/
theorem toNat_iterations_succ {lexer : Lexer}
    (h : lexer.iterations < lexer.settings.iterationLimit) :
    (lexer.iterations + 1).toNat = lexer.iterations.toNat + 1 := by
  have hbelow := UInt64.lt_iff_toNat_lt.1 h
  have hlimit := lexer.settings.iterationLimit.toNat_lt
  rw [UInt64.toNat_add]
  exact Nat.mod_eq_of_lt (by show lexer.iterations.toNat + 1 < 2 ^ 64; omega)

theorem toNat_iterations_past {lexer : Lexer}
    (h : lexer.iterations < lexer.settings.iterationLimit) (kind : TokenKind)
    (lexeme rest : Text) :
    (lexer.past kind lexeme rest).iterations.toNat = lexer.iterations.toNat + 1 := by
  rw [iterations_past, toNat_iterations_succ h]

theorem Allows.past {lexer : Lexer} {count : Nat} (h : lexer.Allows (count + 1)) (kind : TokenKind)
    (lexeme rest : Text) : (lexer.past kind lexeme rest).Allows count := by
  have hwithin := h.within
  have hbelow : lexer.iterations < lexer.settings.iterationLimit :=
    UInt64.lt_iff_toNat_lt.2 (by omega)
  have hnext := toNat_iterations_past hbelow kind lexeme rest
  refine ⟨h.running, ?_⟩
  rw [settings_past, hnext]
  omega

/-- Where the limit allows it, a lexeme selected is emitted. -/
theorem emits_of_selection {lexer : Lexer} {count : Nat} (h : lexer.Allows (count + 1))
    {kind : TokenKind} {lexeme rest : Text}
    (hselect : lexer.selection = some { action := .emit kind, lexeme, rest }) :
    Emits lexer [lexer.tokenOf kind lexeme] (lexer.past kind lexeme rest) := by
  have hahead : lexer.cursor.rest ≠ [] := ne_nil_of_select hselect
  exact emits_singleton (next_eq_token_iff.2 ⟨h.live hahead, _, _, _, hselect, rfl, rfl⟩)

/-- The lexer goes on, and may apply a rule to each character ahead. As every rule takes at least one
character, the limit is then not reached. -/
def CanFinish (lexer : Lexer) : Prop :=
  lexer.Allows lexer.cursor.rest.length

theorem canFinish_ofText {source : Text} {settings : Settings}
    (h : source.length ≤ settings.iterationLimit.toNat) : (ofText source settings).CanFinish :=
  ⟨rfl, by show 0 + source.length ≤ settings.iterationLimit.toNat; omega⟩

namespace CanFinish

variable {lexer : Lexer} {kind : TokenKind} {lexeme rest : Text}

theorem live (h : lexer.CanFinish) (hrest : lexer.cursor.rest ≠ []) : lexer.Live := by
  unfold CanFinish at h
  cases hahead : lexer.cursor.rest with
  | nil => exact absurd hahead hrest
  | cons c rest =>
    rw [hahead, List.length_cons] at h
    exact h.live hrest

theorem past (h : lexer.CanFinish)
    (hselect : lexer.selection = some { action := .emit kind, lexeme, rest }) :
    (lexer.past kind lexeme rest).CanFinish := by
  obtain ⟨hne, happend⟩ := append_of_select hselect
  have hpos : 0 < lexeme.length := List.length_pos_iff.2 hne
  have hlength : lexeme.length + rest.length = lexer.cursor.rest.length := by
    rw [← List.length_append, happend]
  have hwithin := h.within
  have hallows : lexer.Allows (rest.length + 1) := ⟨h.running, by omega⟩
  exact hallows.past kind lexeme rest

theorem emits (h : lexer.CanFinish)
    (hselect : lexer.selection = some { action := .emit kind, lexeme, rest }) :
    Emits lexer [lexer.tokenOf kind lexeme] (lexer.past kind lexeme rest) :=
  emits_singleton (Call.emitted (h.live (ne_nil_of_select hselect)) hselect).next_eq

end CanFinish

theorem Emits.canFinish {lexer after : Lexer} {tokens : List Token} (h : Emits lexer tokens after)
    (hfinish : lexer.CanFinish) : after.CanFinish := by
  induction h with
  | nil => exact hfinish
  | cons hnext _ ih =>
    obtain ⟨-, _, _, _, hselect, -, rfl⟩ := next_eq_token_iff.1 hnext
    exact ih (hfinish.past hselect)

theorem Emits.allows {lexer after : Lexer} {tokens : List Token} {count : Nat}
    (h : Emits lexer tokens after) (hallows : lexer.Allows (tokens.length + count)) :
    after.Allows count := by
  induction h with
  | nil => simpa using hallows
  | @cons lexer mid after token tokens hnext _ ih =>
    obtain ⟨-, _, _, _, -, -, rfl⟩ := next_eq_token_iff.1 hnext
    apply ih
    apply Allows.past
    rwa [List.length_cons, Nat.add_right_comm] at hallows

/-- A row of tokens is given under other settings too, if they select the same lexemes for it and allow as
many rules. -/
theorem Emits.withSettings {lexer after : Lexer} {tokens : List Token}
    (h : Emits lexer tokens after) {settings : Settings}
    (hselect : ∀ {now : Lexer} {kind : TokenKind} {lexeme rest : Text},
      now.settings = lexer.settings → now.tokenOf kind lexeme ∈ tokens →
      now.selection = some { action := .emit kind, lexeme, rest } →
      (now.withSettings settings).selection = some { action := .emit kind, lexeme, rest })
    (hallows : (lexer.withSettings settings).Allows tokens.length) :
    Emits (lexer.withSettings settings) tokens (after.withSettings settings) := by
  induction h with
  | nil => exact .nil
  | @cons lexer mid after token tokens hnext _ ih =>
    obtain ⟨-, kind, lexeme, rest, hfound, rfl, rfl⟩ := next_eq_token_iff.1 hnext
    have hagain := hselect rfl List.mem_cons_self hfound
    refine .cons (next_eq_token_iff.2
      ⟨hallows.live (ne_nil_of_select hagain), kind, lexeme, rest, hagain, rfl, rfl⟩) ?_
    exact ih (fun hsame hmem => hselect hsame (List.mem_cons_of_mem _ hmem)) (hallows.past _ _ _)

theorem next_eq_none_of_rest {lexer : Lexer} (hrest : lexer.cursor.rest = []) :
    lexer.next = (none, { lexer with finished := true }) := by
  have hend : lexer.cursor.atEnd = true := by simp [Cursor.atEnd, hrest]
  unfold next
  by_cases hrun : lexer.finished = true
  · rw [if_pos hrun, ← hrun]
  · rw [if_neg hrun, if_pos hend]

/-- The whole rest of a source is read without fault exactly where tokens lead to its end. -/
theorem run_fault_eq_none_iff {lexer : Lexer} (hrun : lexer.finished = false) :
    lexer.run.fault = none ↔
      ∃ last, Emits lexer lexer.run.tokens last ∧ last.cursor.rest = [] ∧
        lexer.run.final = { last with finished := true } := by
  constructor
  · intro hfault
    obtain ⟨last, hemits, hnext⟩ := exists_emits_run lexer
    have hlast : last.finished = false := by rw [hemits.finished_eq, hrun]
    rw [hfault, Option.map_none] at hnext
    generalize lexer.run.final = final at hnext ⊢
    cases call_of_next hnext with
    | stopped h => rw [hlast] at h; cases h
    | ended _ hrest => exact ⟨last, hemits, hrest, rfl⟩
  · rintro ⟨last, hemits, hrest, -⟩
    rw [hemits.run_eq, run_of_next_none (next_eq_none_of_rest hrest)]

/-- Where tokens lead to the end of the source, a run leaves behind what they leave behind. -/
theorem Emits.context_final {lexer last : Lexer} {tokens : List Token} (h : Emits lexer tokens last)
    (hrest : last.cursor.rest = []) : lexer.run.final.context = last.context := by
  rw [h.run_eq, run_of_next_none (next_eq_none_of_rest hrest)]

theorem Run.result_eq_ok_iff {run : Run} {tokens : List Token} :
    run.result = .ok tokens ↔ run.fault = none ∧ run.tokens = tokens := by
  unfold Run.result
  constructor
  · intro h
    split at h
    · next hfault => exact ⟨hfault, Except.ok.inj h⟩
    · cases h
  · rintro ⟨hfault, rfl⟩
    rw [hfault]

theorem Run.result_eq_error_iff {run : Run} {fault : Fault} :
    run.result = .error fault ↔ run.fault = some fault := by
  unfold Run.result
  constructor
  · intro h
    split at h
    · cases h
    · next hfault => rw [hfault, Except.error.inj h]
  · intro hfault
    rw [hfault]

theorem tokenize_eq_ok_iff {source : Text} {settings : Settings} {tokens : List Token} :
    EcmaLex.tokenize source settings = .ok tokens ↔
      ∃ last, Emits (ofText source settings) tokens last ∧ last.cursor.rest = [] := by
  constructor
  · intro h
    obtain ⟨hfault, rfl⟩ := Run.result_eq_ok_iff.1 h
    obtain ⟨last, hemits, hrest, -⟩ := (run_fault_eq_none_iff rfl).1 hfault
    exact ⟨last, hemits, hrest⟩
  · rintro ⟨last, hemits, hrest⟩
    apply Run.result_eq_ok_iff.2
    rw [hemits.run_eq, run_of_next_none (next_eq_none_of_rest hrest)]
    exact ⟨rfl, List.append_nil tokens⟩

/-- The tokens given by the first `n` calls, and the lexer after them. -/
def calls (lexer : Lexer) : Nat → List Token × Lexer
  | 0 => ([], lexer)
  | n + 1 =>
    match (lexer.calls n).2.next with
    | (some (.ok token), after) => ((lexer.calls n).1 ++ [token], after)
    | (_, after) => ((lexer.calls n).1, after)

theorem calls_succ_snd (lexer : Lexer) (n : Nat) :
    (lexer.calls (n + 1)).2 = (lexer.calls n).2.next.2 := by
  rw [calls]
  generalize (lexer.calls n).2.next = pair
  obtain ⟨_ | _ | _, after⟩ := pair <;> rfl

/-- One more call gives a token, or leaves tokens, cursor and context as they are. -/
theorem calls_succ_cases (lexer : Lexer) (n : Nat) :
    (∃ token, (lexer.calls n).2.next = (some (.ok token), (lexer.calls (n + 1)).2) ∧
      (lexer.calls (n + 1)).1 = (lexer.calls n).1 ++ [token]) ∨
    ((lexer.calls (n + 1)).1 = (lexer.calls n).1 ∧
      (lexer.calls (n + 1)).2.cursor = (lexer.calls n).2.cursor ∧
      (lexer.calls (n + 1)).2.context = (lexer.calls n).2.context ∧
      (lexer.calls (n + 1)).2.settings = (lexer.calls n).2.settings) := by
  rw [calls]
  generalize hnext : (lexer.calls n).2.next = pair
  obtain ⟨result, after⟩ := pair
  cases call_of_next hnext with
  | emitted => exact .inl ⟨_, rfl, rfl⟩
  | stopped => exact .inr ⟨rfl, rfl, rfl, rfl⟩
  | ended => exact .inr ⟨rfl, rfl, rfl, rfl⟩
  | limited => exact .inr ⟨rfl, rfl, rfl, rfl⟩
  | unrecognized => exact .inr ⟨rfl, rfl, rfl, rfl⟩
  | failed => exact .inr ⟨rfl, rfl, rfl, rfl⟩

theorem settings_calls (lexer : Lexer) (n : Nat) :
    (lexer.calls n).2.settings = lexer.settings := by
  induction n with
  | zero => rfl
  | succ n ih =>
    obtain ⟨token, hnext, -⟩ | ⟨-, -, -, hsettings⟩ := calls_succ_cases lexer n
    · obtain ⟨-, _, _, _, -, -, hafter⟩ := next_eq_token_iff.1 hnext
      rw [hafter, settings_past, ih]
    · rw [hsettings, ih]

/-- What holds of tokens, cursor and context at the start, and is kept wherever a lexeme is selected
to be emitted, holds after any number of calls. -/
theorem calls_induction {P : List Token → Cursor → Context → Prop} {lexer : Lexer}
    (start : P [] lexer.cursor lexer.context)
    (step : ∀ {tokens : List Token} {now : Lexer} {kind : TokenKind} {lexeme rest : Text},
      P tokens now.cursor now.context → now.settings = lexer.settings →
      now.selection = some { action := .emit kind, lexeme, rest } →
      P (tokens ++ [now.tokenOf kind lexeme]) (now.cursor.advance lexeme rest)
        (now.context.observe kind)) (n : Nat) :
    P (lexer.calls n).1 (lexer.calls n).2.cursor (lexer.calls n).2.context := by
  induction n with
  | zero => exact start
  | succ n ih =>
    obtain ⟨token, hnext, htokens⟩ | ⟨htokens, hcursor, hcontext, -⟩ := calls_succ_cases lexer n
    · obtain ⟨-, kind, lexeme, rest, hselect, rfl, hafter⟩ := next_eq_token_iff.1 hnext
      rw [htokens, hafter]
      exact step ih (settings_calls lexer n) hselect
    · rw [htokens, hcursor, hcontext]
      exact ih

/-- A row of tokens is given by as many calls. -/
theorem Emits.calls_length {lexer after : Lexer} {tokens : List Token}
    (h : Emits lexer tokens after) : lexer.calls tokens.length = (tokens, after) := by
  suffices ∀ {start : Lexer} {n : Nat} {before : List Token}, start.calls n = (before, lexer) →
      start.calls (n + tokens.length) = (before ++ tokens, after) by
    simpa using @this lexer 0 [] rfl
  induction h with
  | nil => intro start n before hcalls; simpa using hcalls
  | @cons lexer mid after token tokens hnext _ ih =>
    intro start n before hcalls
    have hsucc : start.calls (n + 1) = (before ++ [token], mid) := by
      rw [calls, hcalls]
      simp only [hnext]
    have hlater := ih hsucc
    rw [List.append_assoc, List.singleton_append] at hlater
    rw [List.length_cons, Nat.add_comm tokens.length 1, ← Nat.add_assoc]
    exact hlater

/-- The induction of `calls_induction` for a row of tokens. -/
theorem Emits.induction {P : List Token → Cursor → Context → Prop} {lexer after : Lexer}
    {tokens : List Token} (h : Emits lexer tokens after)
    (start : P [] lexer.cursor lexer.context)
    (step : ∀ {tokens : List Token} {now : Lexer} {kind : TokenKind} {lexeme rest : Text},
      P tokens now.cursor now.context → now.settings = lexer.settings →
      now.selection = some { action := .emit kind, lexeme, rest } →
      P (tokens ++ [now.tokenOf kind lexeme]) (now.cursor.advance lexeme rest)
        (now.context.observe kind)) :
    P tokens after.cursor after.context := by
  have hcalls := calls_induction start step tokens.length
  rwa [h.calls_length] at hcalls

/-- Where a token of a run has been given, and what had been given before. -/
theorem exists_emits_of_run {lexer : Lexer} {before later : List Token} {token : Token}
    (h : lexer.run.tokens = before ++ token :: later) :
    ∃ now after, Emits lexer before now ∧ now.next = (some (.ok token), after) := by
  obtain ⟨last, hemits, -⟩ := exists_emits_run lexer
  rw [h] at hemits
  obtain ⟨now, hbefore, hlater⟩ := hemits.exists_of_append
  cases hlater with
  | cons hnext _ => exact ⟨now, _, hbefore, hnext⟩

/-- Where two adjacent tokens of a run have been given. -/
theorem exists_emits_of_adjacent {lexer : Lexer} {before later : List Token} {token next : Token}
    (h : lexer.run.tokens = before ++ token :: next :: later) :
    ∃ now mid after, Emits lexer before now ∧ now.next = (some (.ok token), mid) ∧
      mid.next = (some (.ok next), after) := by
  obtain ⟨last, hemits, -⟩ := exists_emits_run lexer
  rw [h] at hemits
  obtain ⟨now, hbefore, hlater⟩ := hemits.exists_of_append
  cases hlater with
  | cons hnext hlater =>
    cases hlater with
    | cons hnext' _ => exact ⟨now, _, _, hbefore, hnext, hnext'⟩

/-- Where the fault of a run has been given, after all its tokens. -/
theorem exists_emits_of_fault {lexer : Lexer} {fault : Fault} (h : lexer.run.fault = some fault) :
    ∃ now, Emits lexer lexer.run.tokens now ∧
      now.next = (some (.error fault), lexer.run.final) := by
  obtain ⟨last, hemits, hnext⟩ := exists_emits_run lexer
  rw [h, Option.map_some] at hnext
  exact ⟨last, hemits, hnext⟩

end EcmaLex.Lexer
