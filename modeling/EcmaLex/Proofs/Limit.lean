import EcmaLex.Proofs.Partition

/-!
# The iteration limit

A run that no limit ends applies one rule for each of its tokens and one for its fault, `Run.steps`. Under
every limit that allows as many it is the same run, `run_withSettings`, and under a smaller one it is cut
after as many tokens as the limit allows, `exists_run_cut`. Since every rule takes at least one character, a
limit as large as the source cuts nothing.
-/

namespace EcmaLex

/-- Where the last of some tokens ends. -/
def Token.stop (tokens : List Token) : Nat :=
  (tokens.getLast?.map fun token => token.span.stop).getD 0

/-- Tokens that tile a piece of the source end where it ends. -/
theorem Tiles.getLast?_stop {source : Text} {start stop : Nat} {tokens : List Token}
    (h : Tiles source start tokens stop) :
    (tokens.getLast?.map fun token => token.span.stop).getD start = stop := by
  induction tokens generalizing start with
  | nil => exact h
  | cons token tokens ih =>
    obtain ⟨-, -, -, hlater⟩ := h
    rw [List.getLast?_cons, Option.map_some, Option.getD_some, ← ih hlater]
    cases tokens.getLast? <;> rfl

namespace Lexer

/-- Every token takes at least one character. -/
theorem Emits.length_add_le {lexer after : Lexer} {tokens : List Token}
    (h : Emits lexer tokens after) :
    tokens.length + after.cursor.rest.length ≤ lexer.cursor.rest.length := by
  induction h with
  | nil => exact Nat.le_of_eq (Nat.zero_add _)
  | cons hnext _ ih =>
    have hfirst := length_rest_lt_of_next hnext
    rw [List.length_cons]
    omega

/-- Every token takes one rule. -/
theorem Emits.toNat_iterations {lexer after : Lexer} {tokens : List Token}
    (h : Emits lexer tokens after) :
    after.iterations.toNat = lexer.iterations.toNat + tokens.length := by
  induction h with
  | nil => rfl
  | cons hnext _ ih =>
    obtain ⟨hlive, kind, lexeme, rest, -, -, rfl⟩ := next_eq_token_iff.1 hnext
    rw [ih, toNat_iterations_past hlive.within, List.length_cons]
    omega

/-- A row of tokens that has been given was allowed. -/
theorem Emits.length_le_limit {lexer after : Lexer} {tokens : List Token}
    (h : Emits lexer tokens after) (hlimit : lexer.iterations ≤ lexer.settings.iterationLimit) :
    lexer.iterations.toNat + tokens.length ≤ lexer.settings.iterationLimit.toNat := by
  induction h with
  | nil => exact UInt64.le_iff_toNat_le.1 hlimit
  | cons hnext _ ih =>
    obtain ⟨hlive, kind, lexeme, rest, -, -, rfl⟩ := next_eq_token_iff.1 hnext
    have hbelow := UInt64.lt_iff_toNat_lt.1 hlive.within
    have hcount := toNat_iterations_past hlive.within kind lexeme rest
    have hlater := ih (UInt64.le_iff_toNat_le.2 (by rw [settings_past, hcount]; omega))
    rw [settings_past, hcount] at hlater
    rw [List.length_cons]
    omega

/-- A fault is found in text, never at the end of the source. -/
theorem ahead_of_next_error {lexer after : Lexer} {fault : Fault}
    (h : lexer.next = (some (.error fault), after)) : lexer.cursor.rest ≠ [] := by
  cases call_of_next h with
  | limited _ hrest _ => exact hrest
  | unrecognized hlive _ => exact hlive.ahead
  | failed hlive _ => exact hlive.ahead

/-- How many rules a run applies that no limit ends. -/
def Run.steps (run : Run) : Nat :=
  run.tokens.length + run.fault.toList.length

theorem Run.length_take {run : Run} {count : Nat} (h : count < run.steps) :
    (run.tokens.take count).length = count := by
  have hone : run.fault.toList.length ≤ 1 := by cases run.fault <;> simp
  unfold steps at h
  rw [List.length_take]
  omega

/-- The same run of a lexer under other settings. -/
def Run.withSettings (run : Run) (settings : Settings) : Run :=
  { run with final := run.final.withSettings settings }

theorem steps_run_le (lexer : Lexer) : lexer.run.steps ≤ lexer.cursor.rest.length := by
  obtain ⟨last, hemits, hnext⟩ := exists_emits_run lexer
  have hlength := hemits.length_add_le
  unfold Run.steps
  cases hfault : lexer.run.fault with
  | none =>
    rw [Option.toList_none, List.length_nil]
    omega
  | some fault =>
    rw [hfault, Option.map_some] at hnext
    have hahead := List.length_pos_iff.2 (ahead_of_next_error hnext)
    rw [Option.toList_some, List.length_singleton]
    omega

/-- A lexer that may apply a rule to each character is never stopped by the limit. -/
theorem CanFinish.liesInSource {lexer : Lexer} (h : lexer.CanFinish) {fault : Fault}
    (hfault : lexer.run.fault = some fault) : fault.liesInSource = true := by
  obtain ⟨last, hemits, hnext⟩ := exists_emits_of_fault hfault
  have hlast := hemits.canFinish h
  generalize lexer.run.final = final at hnext
  cases call_of_next hnext with
  | limited _ hrest hlimit => exact absurd (hlast.live hrest).within (UInt64.not_lt.2 hlimit)
  | unrecognized => rfl
  | @failed _ diagnosis => cases diagnosis <;> rfl

/-- Settings of the same edition select the same lexemes. -/
theorem selection_withSettings {lexer : Lexer} {settings : Settings}
    (hedition : settings.edition = lexer.settings.edition) :
    (lexer.withSettings settings).selection = lexer.selection := by
  rw [selection, selection, ← hedition]
  rfl

/-- A call that the limit does not stop gives the same under every limit that allows one more rule. -/
theorem next_withSettings {lexer after : Lexer} {result : Option (Except Fault Token)}
    (hnext : lexer.next = (result, after)) {settings : Settings}
    (hedition : settings.edition = lexer.settings.edition)
    (hsource : ∀ fault, result = some (.error fault) → fault.liesInSource = true)
    (hwithin : result ≠ none → lexer.iterations < settings.iterationLimit) :
    (lexer.withSettings settings).next = (result, after.withSettings settings) := by
  refine ((call_of_next hnext).withSettings (selection_withSettings hedition) ?_ ?_).next_eq
  · intro limit span hlimited
    cases hsource _ hlimited
  · exact fun hne _ => hwithin hne

/-- The same row of tokens is given under every limit that allows it. -/
theorem Emits.withLimit {lexer after : Lexer} {tokens : List Token} (h : Emits lexer tokens after)
    {settings : Settings} (hedition : settings.edition = lexer.settings.edition)
    (hallows : (lexer.withSettings settings).Allows tokens.length) :
    Emits (lexer.withSettings settings) tokens (after.withSettings settings) := by
  refine h.withSettings (fun hsame _ hselect => ?_) hallows
  rw [← hsame] at hedition
  exact (selection_withSettings hedition).trans hselect

/-- A run that no limit ended is the same under every limit that allows its steps. -/
theorem run_withSettings {lexer : Lexer} {settings : Settings}
    (hedition : settings.edition = lexer.settings.edition)
    (hsource : ∀ fault, lexer.run.fault = some fault → fault.liesInSource = true)
    (hallows : (lexer.withSettings settings).Allows lexer.run.steps) :
    (lexer.withSettings settings).run = lexer.run.withSettings settings := by
  obtain ⟨last, hemits, hnext⟩ := exists_emits_run lexer
  have htokens : (lexer.withSettings settings).Allows lexer.run.tokens.length :=
    ⟨hallows.running, Nat.le_trans (Nat.add_le_add_left (Nat.le_add_right _ _) _) hallows.within⟩
  have hagain := hemits.withLimit hedition htokens
  have hlast := hagain.allows hallows
  rw [← hemits.settings_eq] at hedition
  cases hfault : lexer.run.fault with
  | none =>
    rw [hfault, Option.map_none] at hnext
    have hnext' := next_withSettings hnext hedition nofun (fun h => absurd rfl h)
    rw [hagain.run_eq, run_of_next_none hnext', List.append_nil, Run.withSettings, hfault]
  | some fault =>
    rw [hfault, Option.map_some] at hnext
    rw [hfault] at hlast
    have hbelow := hlast.within
    have hnext' := next_withSettings hnext hedition
      (fun other h => hsource other (hfault.trans (congrArg some (Except.error.inj (Option.some.inj h)))))
      fun _ => UInt64.lt_iff_toNat_lt.2 hbelow
    rw [hagain.run_eq, run_of_next_error hnext', List.append_nil, Run.withSettings, hfault]

/-- A row of tokens takes as many of the steps of a run. -/
theorem Emits.steps_run {lexer after : Lexer} {tokens : List Token} (h : Emits lexer tokens after) :
    lexer.run.steps = tokens.length + after.run.steps := by
  rw [h.run_eq, Run.steps, Run.steps, List.length_append, Nat.add_assoc]

/-- A run is cut by a limit that does not allow its steps, after as many tokens as are allowed. -/
theorem exists_run_cut {lexer : Lexer} {settings : Settings}
    (hedition : settings.edition = lexer.settings.edition) (hrun : lexer.finished = false)
    {count : Nat} (hlimit : settings.iterationLimit.toNat = lexer.iterations.toNat + count)
    (hcount : count < lexer.run.steps) :
    ∃ mid, Emits lexer (lexer.run.tokens.take count) mid ∧
      (lexer.withSettings settings).run =
        { tokens := lexer.run.tokens.take count
          fault := some (.iterationLimit settings.iterationLimit (mid.cursor.spanOf mid.cursor.rest))
          final := { mid.withSettings settings with finished := true } } := by
  obtain ⟨last, hemits, -⟩ := exists_emits_run lexer
  rw [← List.take_append_drop count lexer.run.tokens] at hemits
  obtain ⟨mid, hfirst, -⟩ := hemits.exists_of_append
  have hlength := Run.length_take hcount
  -- a step of the run is left, so there is text left for it
  have hahead : mid.cursor.rest ≠ [] := by
    have hsteps := hfirst.steps_run
    have hleft := steps_run_le mid
    exact List.length_pos_iff.1 (by omega)
  have hallows : (lexer.withSettings settings).Allows (lexer.run.tokens.take count).length :=
    ⟨hrun, by rw [hlength]; exact Nat.le_of_eq hlimit.symm⟩
  have hagain := hfirst.withLimit hedition hallows
  have hused : settings.iterationLimit ≤ (mid.withSettings settings).iterations := by
    have hiterations := hfirst.toNat_iterations
    rw [hlength, ← hlimit] at hiterations
    exact UInt64.le_iff_toNat_le.2 (Nat.le_of_eq hiterations.symm)
  have hrunning : mid.finished = false := hfirst.finished_eq.trans hrun
  have hcut := (@Call.limited (mid.withSettings settings) hrunning hahead hused).next_eq
  refine ⟨mid, hfirst, ?_⟩
  rw [hagain.run_eq, run_of_next_error hcut, List.append_nil]
  rfl

/-- Where a rule of a scan finds a token, such a token is given, unless the limit is used up there. -/
theorem Emits.gives_or_cut {source lexeme rest : Text} {settings : Settings} {before : List Token}
    {now : Lexer} {kind : TokenKind} (hemits : Emits (ofText source settings) before now)
    (hselect : now.selection = some { action := .emit kind, lexeme, rest }) :
    (∃ token later, (ofText source settings).run.tokens = before ++ token :: later ∧
      token.kind = kind) ∨
    (before.length = settings.iterationLimit.toNat ∧
      (ofText source settings).run.tokens = before ∧
      ∃ span, (ofText source settings).run.fault =
        some (.iterationLimit settings.iterationLimit span)) := by
  have hsettings : now.settings = settings := hemits.settings_eq
  have hrunning : now.finished = false := hemits.finished_eq
  have hahead : now.cursor.rest ≠ [] := ne_nil_of_select hselect
  by_cases hlimit : now.settings.iterationLimit ≤ now.iterations
  · right
    have hrun := hemits.run_eq
    rw [run_of_next_error (Call.limited hrunning hahead hlimit).next_eq, hsettings,
      List.append_nil] at hrun
    have hcount : now.iterations.toNat = 0 + before.length := hemits.toNat_iterations
    have hallowed : 0 + before.length ≤ settings.iterationLimit.toNat :=
      hemits.length_le_limit (UInt64.le_iff_toNat_le.2 (Nat.zero_le _))
    have hused : settings.iterationLimit.toNat ≤ now.iterations.toNat := by
      rw [← hsettings]
      exact UInt64.le_iff_toNat_le.1 hlimit
    rw [hrun]
    exact ⟨by omega, rfl, _, rfl⟩
  · left
    have hnext := (Call.emitted ⟨hrunning, hahead, UInt64.not_le.1 hlimit⟩ hselect).next_eq
    have hrun := (hemits.append (emits_singleton hnext)).run_eq
    rw [hrun]
    exact ⟨_, _, List.append_assoc _ _ _, rfl⟩

/-- The scan of a source is cut with a fault about all that is left of it. -/
theorem run_cut_ofText (source : Text) (edition : Edition) {enough limit : UInt64} :
    let whole := (ofText source { edition, iterationLimit := enough }).run
    let cut := (ofText source { edition, iterationLimit := limit }).run
    limit.toNat < whole.steps →
      cut.tokens = whole.tokens.take limit.toNat ∧ cut.tokens.length = limit.toNat ∧
      ∃ span, cut.fault = some (.iterationLimit limit span) ∧
        span.start = Token.stop cut.tokens ∧ span.stop = source.byteSize := by
  intro whole cut hsteps
  have hlimit : limit.toNat = (0 : UInt64).toNat + limit.toNat := (Nat.zero_add _).symm
  obtain ⟨mid, hemits, heq⟩ :=
    @exists_run_cut (.ofText source { edition, iterationLimit := enough })
      { edition, iterationLimit := limit } rfl rfl _ hlimit hsteps
  have hpartition := hemits.partition
  have htokens : cut.tokens = whole.tokens.take limit.toNat := congrArg Run.tokens heq
  have hlength : cut.tokens.length = limit.toNat := by
    rw [htokens, Run.length_take hsteps]
  refine ⟨htokens, hlength, _, congrArg Run.fault heq, ?_, ?_⟩
  · rw [htokens]
    exact hpartition.tiles.getLast?_stop.symm
  · rw [← hpartition.source_eq]
    exact hpartition.stands.byteSize_eq.symm

end Lexer

/-- Under a limit of at least the number of characters a run is never stopped by the limit, and its steps are
no more than the characters. Under any limit at all, the run is the same if the limit allows its steps. Else
it is cut: it gives as many of the tokens as the limit says, and then the fault that says so, from the end of
these tokens to the end of the source. So a run that was not cut is the same under every higher limit. -/
theorem run_under_limit (source : Text) (edition : Edition) {enough : UInt64}
    (henough : source.length ≤ enough.toNat) :
    let run (limit : UInt64) := (Lexer.ofText source { edition, iterationLimit := limit }).run
    (∀ limit span, (run enough).fault ≠ some (.iterationLimit limit span)) ∧
    (run enough).steps ≤ source.length ∧
    (∀ limit : UInt64,
      ((run enough).steps ≤ limit.toNat →
        run limit = (run enough).withSettings { edition, iterationLimit := limit }) ∧
      (limit.toNat < (run enough).steps →
        (run limit).tokens = (run enough).tokens.take limit.toNat ∧
        (run limit).tokens.length = limit.toNat ∧
        ∃ span, (run limit).fault = some (.iterationLimit limit span) ∧
          span.start = Token.stop (run limit).tokens ∧ span.stop = source.byteSize)) ∧
    ∀ lower higher : UInt64, lower ≤ higher →
      (∀ limit span, (run lower).fault ≠ some (.iterationLimit limit span)) →
        (run higher).tokens = (run lower).tokens ∧ (run higher).fault = (run lower).fault := by
  intro run
  have hfinish : (Lexer.ofText source { edition, iterationLimit := enough }).CanFinish :=
    Lexer.canFinish_ofText henough
  have hkept : ∀ limit : UInt64, (run enough).steps ≤ limit.toNat →
      run limit = (run enough).withSettings { edition, iterationLimit := limit } := by
    intro limit hsteps
    refine @Lexer.run_withSettings (.ofText source { edition, iterationLimit := enough })
      { edition, iterationLimit := limit } rfl (fun _ => hfinish.liesInSource) ⟨rfl, ?_⟩
    show 0 + (run enough).steps ≤ limit.toNat
    omega
  have hcut := fun limit : UInt64 => @Lexer.run_cut_ofText source edition enough limit
  refine ⟨fun limit span hfault => ?_, Lexer.steps_run_le _, fun limit => ⟨hkept limit, hcut limit⟩,
    fun lower higher hle hlower => ?_⟩
  · cases hfinish.liesInSource hfault
  · by_cases hsteps : (run enough).steps ≤ lower.toNat
    · have hhigher := Nat.le_trans hsteps (UInt64.le_iff_toNat_le.1 hle)
      rw [hkept lower hsteps, hkept higher hhigher]
      exact ⟨rfl, rfl⟩
    · obtain ⟨-, -, span, hfault, -⟩ := hcut lower (Nat.lt_of_not_le hsteps)
      exact absurd hfault (hlower lower span)

/-- Two tokens and a fault take three rules. Under a limit of two the fault is not found. -/
theorem run_under_limit_numeralBeforeName :
    let source : Text := ['a', ' ', '1', 'x']
    let run (limit : UInt64) := (Lexer.ofText source { edition := .es5, iterationLimit := limit }).run
    source.length ≤ (4 : UInt64).toNat ∧
    (run 4).fault = some (.malformedNumeral .identifierAfter ['1', 'x'] ⟨2, 4, ⟨1, 3⟩⟩) ∧
    (run 4).steps = 3 ∧
    run 3 = (run 4).withSettings { edition := .es5, iterationLimit := 3 } ∧
    (run 2).tokens = (run 4).tokens ∧
    ∃ span, (run 2).fault = some (.iterationLimit 2 span) ∧ span.start = 2 ∧ span.stop = 4 := by
  intro source run
  have henough : source.length ≤ (4 : UInt64).toNat := by decide
  have hsteps : (run 4).steps = 3 := by decide +kernel
  obtain ⟨-, -, hunder, -⟩ := run_under_limit source .es5 henough
  have hkept := (hunder 3).1 (Nat.le_of_eq hsteps)
  have hbelow : (2 : UInt64).toNat < (run 4).steps := by rw [hsteps]; decide
  obtain ⟨htokens, -, span, hfault, hstart, hstop⟩ := (hunder 2).2 hbelow
  have htake : (run 4).tokens.take 2 = (run 4).tokens := by decide +kernel
  have hend : Token.stop (run 2).tokens = 2 := by decide +kernel
  exact ⟨henough, by decide +kernel, hsteps, hkept, htokens.trans htake, span, hfault,
    hstart.trans hend, hstop⟩

end EcmaLex
