import EcmaLex.Proofs.Introduced
import EcmaLex.Proofs.Run

/-!
# Operators for powers

The newest of the editions that brought rules brought only the operators for powers. An edition before it
that has templates reads two stars where it reads one such operator, and the same everywhere else:
`tokenize_without_powers`. The two scans take different numbers of steps, but after the stars both stand at
the same place in the same context: `Abreast`.
-/

namespace EcmaLex

open Matcher

/-- Only the spellings that begin with the first character have to be tried. -/
theorem Matcher.oneOf_cons {spellings : List Text} (hne : [] ∉ spellings) (c : Char) (rest : Text) :
    oneOf spellings (c :: rest) =
      oneOf (spellings.filter fun spelling => spelling.head? == some c) (c :: rest) := by
  induction spellings with
  | nil => rfl
  | cons spelling spellings ih =>
    have hlater := ih fun hmem => hne (List.mem_cons_of_mem _ hmem)
    unfold oneOf at hlater ⊢
    by_cases hc : spelling.head? = some c
    · rw [List.filter_cons_of_pos (by rw [hc, beq_self_eq_true]), List.findSome?_cons,
        List.findSome?_cons, hlater]
    · have hnone : exactly spelling (c :: rest) = none := by
        refine exactly_eq_none_iff.2 fun hbegins => ?_
        cases spelling with
        | nil => exact hne List.mem_cons_self
        | cons d spelling => exact hc (congrArg some (List.cons_prefix_cons.1 hbegins).1)
      rw [List.filter_cons_of_neg (by simpa using hc), List.findSome?_cons, hnone, hlater]

/-- Every operator for powers begins with two stars. -/
theorem Operator.oneOf_exponent_eq_none {text : Text} (h : ¬ ['*', '*'] <+: text) :
    oneOf exponent text = none := by
  have hstars : ∀ spelling ∈ exponent, ['*', '*'] <+: spelling := by decide +kernel
  refine List.findSome?_eq_none_iff.2 fun spelling hmem => ?_
  exact exactly_eq_none_iff.2 fun hbegins => h ((hstars spelling hmem).trans hbegins)

namespace Operator

/-- The given marks, with the equals sign behind them if one is there. -/
def assigned (marks : Text) : Text → Text × Text
  | '=' :: rest => (marks ++ ['='], rest)
  | rest => (marks, rest)

theorem assigned_other (marks : Text) {rest : Text} (h : ¬ ['='] <+: rest) :
    assigned marks rest = (marks, rest) := by
  unfold assigned
  split
  · next tail => exact absurd ⟨tail, rfl⟩ h
  · rfl

theorem assigned_cons (c : Char) (marks rest : Text) :
    assigned (c :: marks) rest = extend [c] (assigned marks rest) := by
  unfold assigned
  split
  · rfl
  · rfl

theorem fst_assigned_star (rest : Text) :
    (assigned ['*'] rest).1 = ['*'] ∨ (assigned ['*'] rest).1 = ['*', '='] := by
  unfold assigned
  split
  · exact .inr rfl
  · exact .inl rfl

theorem oneOf_assigned (marks rest : Text) :
    oneOf [marks ++ ['='], marks] (marks ++ rest) = some (assigned marks rest) := by
  have hmarks : exactly marks (marks ++ rest) = some (marks, rest) :=
    exactly_eq_some_iff.2 ⟨rfl, rfl⟩
  by_cases h : ['='] <+: rest
  · obtain ⟨tail, rfl⟩ := h
    have hequals : exactly (marks ++ ['=']) (marks ++ (['='] ++ tail)) =
        some (marks ++ ['='], tail) := exactly_eq_some_iff.2 ⟨rfl, List.append_assoc _ _ _⟩
    rw [oneOf, List.findSome?_cons, hequals]
    rfl
  · have hequals : exactly (marks ++ ['=']) (marks ++ rest) = none :=
      exactly_eq_none_iff.2 fun hbegins => h ((List.prefix_append_right_inj marks).1 hbegins)
    rw [oneOf, List.findSome?_cons, hequals, List.findSome?_cons, hmarks, assigned_other marks h]

/-- At a star the base operators are the star and the star with an equals sign. -/
theorem oneOf_base_star (rest : Text) :
    oneOf base ('*' :: rest) = some (assigned ['*'] rest) := by
  have hstars : base.filter (fun spelling => spelling.head? == some '*') =
      [['*'] ++ ['='], ['*']] := by decide +kernel
  rw [oneOf_cons (by decide +kernel), hstars]
  exact oneOf_assigned ['*'] rest

theorem oneOf_exponent_stars (rest : Text) :
    oneOf exponent ('*' :: '*' :: rest) = some (assigned ['*', '*'] rest) := by
  have hpowers : exponent = [['*', '*'] ++ ['='], ['*', '*']] := by decide +kernel
  rw [hpowers]
  exact oneOf_assigned ['*', '*'] rest

theorem oneOf_arrowAndSpread_star (rest : Text) : oneOf arrowAndSpread ('*' :: rest) = none := by
  have hstars : arrowAndSpread.filter (fun spelling => spelling.head? == some '*') = [] := by
    decide +kernel
  rw [oneOf_cons (by decide +kernel), hstars]
  rfl

end Operator

/-- At a star only the rules for operators answer. -/
theorem select_star (edition : Edition) (context : Context) (rest : Text) :
    select edition context ('*' :: rest) =
      firstOf operatorRules edition context ('*' :: rest) := by
  have hopened : rulesOpenedBy '*' = operatorRules := rfl
  rw [select_cons, hopened]

theorem select_star_of_excludes {edition : Edition} (hes5 : edition.includes .es5 = true)
    (hpowers : edition.includes .es2016 = false) (context : Context) (rest : Text) :
    select edition context ('*' :: rest) =
      some { action := .emit .operator
             lexeme := (Operator.assigned ['*'] rest).1
             rest := (Operator.assigned ['*'] rest).2 } := by
  have harrow := Operator.oneOf_arrowAndSpread_star rest
  have hbase := Operator.oneOf_base_star rest
  rw [select_star]
  simp [firstOf, operatorRules, Rule.find?, Rule.applies, hes5, hpowers, harrow, hbase]

theorem select_stars_of_includes {edition : Edition} (hpowers : edition.includes .es2016 = true)
    (context : Context) (rest : Text) :
    select edition context ('*' :: '*' :: rest) =
      some { action := .emit .operator
             lexeme := (Operator.assigned ['*', '*'] rest).1
             rest := (Operator.assigned ['*', '*'] rest).2 } := by
  have harrow := Operator.oneOf_arrowAndSpread_star ('*' :: rest)
  have hexponent := Operator.oneOf_exponent_stars rest
  rw [select_star]
  simp [firstOf, operatorRules, Rule.find?, Rule.applies, hpowers, harrow, hexponent]

/-- Both editions have templates, and only the later one has the operators for powers. -/
structure Edition.Straddle (earlier later : Edition) : Prop where
  templates : earlier.includes .es2015 = true
  without : earlier.includes .es2016 = false
  powers : later.includes .es2016 = true

/-- Where no two stars stand, the operators for powers make no difference. -/
theorem Edition.Straddle.select_eq {earlier later : Edition} (h : earlier.Straddle later)
    (context : Context) {text : Text} (hstars : ¬ ['*', '*'] <+: text) :
    select earlier context text = select later context text := by
  have hlater : later.includes .es2015 = true := includes_of_le h.powers (by decide)
  have hes5 : earlier.includes .es5 = true := includes_of_le h.templates (by decide)
  have hes5' : later.includes .es5 = true := includes_of_le h.powers (by decide)
  apply select_congr
  intro rule hmem
  rcases since_of_mem_rules rule hmem with hsince | hsince | ⟨-, hmatcher⟩
  · left
    rw [Rule.applies, Rule.applies, hsince, hes5, hes5']
  · left
    rw [Rule.applies, Rule.applies, hsince, h.templates, hlater]
  · right
    rw [hmatcher]
    exact Operator.oneOf_exponent_eq_none hstars

/-- A star where a token begins, and `second` directly behind it. -/
def Token.starThen (token : Token) (second : Text) : List Token :=
  let start := token.span.start
  let location := token.span.location
  [ { kind := .operator, text := ['*'], span := { start, stop := start + 1, location } },
    { kind := .operator
      text := second
      span :=
        { start := start + 1
          stop := start + 1 + second.byteSize
          location := { location with column := location.column + 1 } } } ]

/-- What a token is read as where there are no operators for powers. -/
def Token.withoutPowers (token : Token) : List Token :=
  if token.kind = .operator ∧ token.text = ['*', '*'] then token.starThen ['*']
  else if token.kind = .operator ∧ token.text = ['*', '*', '='] then token.starThen ['*', '=']
  else [token]

theorem Token.withoutPowers_other {token : Token} (h : ¬ ['*', '*'] <+: token.text) :
    token.withoutPowers = [token] := by
  have htwo : token.text ≠ ['*', '*'] := by
    intro heq
    exact h (heq ▸ List.prefix_refl _)
  have hthree : token.text ≠ ['*', '*', '='] := by
    intro heq
    exact h (heq ▸ ⟨['='], rfl⟩)
  rw [withoutPowers, if_neg fun hpower => htwo hpower.2, if_neg fun hpower => hthree hpower.2]

theorem Token.withoutPowers_power {token : Token} {second : Text} (hkind : token.kind = .operator)
    (hsecond : second = ['*'] ∨ second = ['*', '=']) (htext : token.text = '*' :: second) :
    token.withoutPowers = token.starThen second := by
  rcases hsecond with rfl | rfl
  · rw [withoutPowers, if_pos ⟨hkind, htext⟩]
  · rw [withoutPowers, if_neg fun hpower => absurd (htext.symm.trans hpower.2) (by decide),
      if_pos ⟨hkind, htext⟩]

/-- A cursor moves over a star and what follows it as over both at once. -/
theorem Cursor.advance_star (cursor : Cursor) {second : Text}
    (hsecond : second = ['*'] ∨ second = ['*', '=']) (between rest : Text) :
    (cursor.advance ['*'] between).advance second rest = cursor.advance ('*' :: second) rest := by
  have hlocation : (cursor.location.after ['*']).after second =
      cursor.location.after ('*' :: second) := by
    rcases hsecond with rfl | rfl
    · exact congrArg (Location.mk cursor.location.line) (UInt32.add_assoc _ _ _)
    · exact congrArg (Location.mk cursor.location.line) (UInt32.add_assoc _ _ _)
  simp only [advance, hlocation, Text.byteSize_cons, Text.byteSize_nil, Nat.add_zero, Nat.add_assoc]

namespace Lexer

/-- Two lexers at the same place in the same context, of which only `new` knows the operators for powers. -/
structure Abreast (old new : Lexer) : Prop where
  cursor : old.cursor = new.cursor
  context : old.context = new.context
  straddle : old.settings.edition.Straddle new.settings.edition
  old_canFinish : old.CanFinish
  new_canFinish : new.CanFinish

namespace Abreast

variable {old new : Lexer}

/-- Where no two stars stand, both select alike. -/
theorem selection_eq (h : Abreast old new) (hstars : ¬ ['*', '*'] <+: new.cursor.rest) :
    old.selection = new.selection := by
  rw [selection, selection, h.cursor, h.context]
  exact h.straddle.select_eq _ hstars

/-- Both emit the same lexeme. -/
theorem emit (h : Abreast old new) {kind : TokenKind} {lexeme rest : Text}
    (hold : old.selection = some { action := .emit kind, lexeme, rest })
    (hnew : new.selection = some { action := .emit kind, lexeme, rest }) :
    Abreast (old.past kind lexeme rest) (new.past kind lexeme rest) where
  cursor := congrArg (·.advance lexeme rest) h.cursor
  context := congrArg (·.observe kind) h.context
  straddle := h.straddle
  old_canFinish := h.old_canFinish.past hold
  new_canFinish := h.new_canFinish.past hnew

/-- Where `new` emits an operator for powers, `old` emits a star and what follows it. -/
theorem emit_power (h : Abreast old new) {second between rest : Text}
    (hsecond : second = ['*'] ∨ second = ['*', '='])
    (hfirst : old.selection = some { action := .emit .operator, lexeme := ['*'], rest := between })
    (hthen : (old.past .operator ['*'] between).selection =
      some { action := .emit .operator, lexeme := second, rest })
    (hnew : new.selection = some { action := .emit .operator, lexeme := '*' :: second, rest }) :
    Abreast ((old.past .operator ['*'] between).past .operator second rest)
      (new.past .operator ('*' :: second) rest) where
  cursor := by
    show (old.cursor.advance ['*'] between).advance second rest =
      new.cursor.advance ('*' :: second) rest
    rw [h.cursor]
    exact new.cursor.advance_star hsecond between rest
  context := congrArg (·.observe .operator) h.context
  straddle := h.straddle
  old_canFinish := (h.old_canFinish.past hfirst).past hthen
  new_canFinish := h.new_canFinish.past hnew

/-- Two stars are one operator for `new` and the first of two for `old`. -/
theorem step_stars (h : Abreast old new) {tail : Text} (hstars : new.cursor.rest = '*' :: '*' :: tail) :
    ∃ token mid after, Emits old token.withoutPowers mid ∧ new.next = (some (.ok token), after) ∧
      Abreast mid after := by
  have hes5 : old.settings.edition.includes .es5 = true :=
    Edition.includes_of_le h.straddle.templates (by decide)
  have hahead : old.cursor.rest = '*' :: '*' :: tail := by rw [h.cursor, hstars]
  have hspelling := Operator.fst_assigned_star tail
  generalize hsecond : Operator.assigned ['*'] tail = found at hspelling
  obtain ⟨second, rest⟩ := found
  have hnew : new.selection = some { action := .emit .operator, lexeme := '*' :: second, rest } := by
    rw [selection, hstars, select_stars_of_includes h.straddle.powers, Operator.assigned_cons, hsecond]
    rfl
  have hfirst : old.selection =
      some { action := .emit .operator, lexeme := ['*'], rest := '*' :: tail } := by
    rw [selection, hahead, select_star_of_excludes hes5 h.straddle.without,
      Operator.assigned_other _ (by simp)]
  have hthen : (old.past .operator ['*'] ('*' :: tail)).selection =
      some { action := .emit .operator, lexeme := second, rest } := by
    rw [selection, settings_past, rest_past, select_star_of_excludes hes5 h.straddle.without, hsecond]
  have htokens : (new.tokenOf .operator ('*' :: second)).withoutPowers =
      [old.tokenOf .operator ['*'],
        (old.past .operator ['*'] ('*' :: tail)).tokenOf .operator second] := by
    rw [Token.withoutPowers_power rfl hspelling rfl, tokenOf, ← h.cursor]
    rfl
  have hemits := (h.old_canFinish.emits hfirst).append ((h.old_canFinish.past hfirst).emits hthen)
  rw [List.singleton_append, ← htokens] at hemits
  have hlive := h.new_canFinish.live (ne_nil_of_select hnew)
  exact ⟨_, _, _, hemits, (Call.emitted hlive hnew).next_eq, h.emit_power hspelling hfirst hthen hnew⟩

/-- One token of `new` is one or two of `old`. -/
theorem step (h : Abreast old new) {token : Token} {after : Lexer}
    (hnext : new.next = (some (.ok token), after)) :
    ∃ mid, Emits old token.withoutPowers mid ∧ Abreast mid after := by
  by_cases hstars : ['*', '*'] <+: new.cursor.rest
  · obtain ⟨tail, htail⟩ := hstars
    obtain ⟨token', mid, after', hemits, hnext', habreast⟩ := h.step_stars htail.symm
    rw [hnext] at hnext'
    simp only [Prod.mk.injEq, Option.some.injEq, Except.ok.injEq] at hnext'
    obtain ⟨rfl, rfl⟩ := hnext'
    exact ⟨mid, hemits, habreast⟩
  · obtain ⟨hlive, kind, lexeme, rest, hselect, rfl, rfl⟩ := next_eq_token_iff.1 hnext
    have hselect' : old.selection = some { action := .emit kind, lexeme, rest } :=
      (h.selection_eq hstars).trans hselect
    have hother : ¬ ['*', '*'] <+: (new.tokenOf kind lexeme).text := fun hbegins =>
      hstars (hbegins.trans ⟨rest, (append_of_select hselect).2⟩)
    refine ⟨old.past kind lexeme rest, ?_, h.emit hselect' hselect⟩
    rw [Token.withoutPowers_other hother, tokenOf, ← h.cursor]
    exact h.old_canFinish.emits hselect'

/-- Where `new` comes upon a fault, `old` comes upon the same. -/
theorem fault (h : Abreast old new) {fault : Fault} {final : Lexer}
    (hnext : new.next = (some (.error fault), final)) :
    ∃ final', old.next = (some (.error fault), final') := by
  have hstars : ¬ ['*', '*'] <+: new.cursor.rest := by
    rintro ⟨tail, htail⟩
    obtain ⟨token, mid, after, -, hnext', -⟩ := h.step_stars htail.symm
    rw [hnext] at hnext'
    cases hnext'
  have hselection := h.selection_eq hstars
  have hlive : new.Live → old.Live := fun hlive =>
    h.old_canFinish.live (by rw [h.cursor]; exact hlive.ahead)
  cases call_of_next hnext with
  | limited _ hrest hlimit =>
    exact absurd (h.new_canFinish.live hrest).within (UInt64.not_lt.2 hlimit)
  | unrecognized hrun hselect =>
    rw [← h.cursor]
    exact ⟨_, (Call.unrecognized (hlive hrun) (hselection.trans hselect)).next_eq⟩
  | failed hrun hselect =>
    rw [← h.cursor]
    exact ⟨_, (Call.failed (hlive hrun) (hselection.trans hselect)).next_eq⟩

end Abreast

/-- What `new` emits, `old` emits with two stars for every operator for powers. -/
theorem Emits.withoutPowers {old new after : Lexer} {tokens : List Token}
    (h : Emits new tokens after) (habreast : Abreast old new) :
    ∃ stop, Emits old (tokens.flatMap Token.withoutPowers) stop ∧ Abreast stop after := by
  induction h generalizing old with
  | nil => exact ⟨old, .nil, habreast⟩
  | cons hnext _ ih =>
    obtain ⟨mid, hfirst, hmid⟩ := habreast.step hnext
    obtain ⟨stop, hlater, hstop⟩ := ih hmid
    exact ⟨stop, hfirst.append hlater, hstop⟩

/-- The runs of two lexers abreast differ only in the operators for powers, and end alike. -/
theorem Abreast.run_eq {old new : Lexer} (h : Abreast old new) :
    old.run.tokens = new.run.tokens.flatMap Token.withoutPowers ∧ old.run.fault = new.run.fault := by
  obtain ⟨last, hemits, hnext⟩ := exists_emits_run new
  obtain ⟨stop, hagain, hstop⟩ := hemits.withoutPowers h
  have hend : stop.run.tokens = [] ∧ stop.run.fault = new.run.fault := by
    cases hfault : new.run.fault with
    | none =>
      rw [hfault, Option.map_none] at hnext
      have hrest : stop.cursor.rest = [] := by
        rw [hstop.cursor]
        generalize new.run.final = final at hnext
        cases call_of_next hnext with
        | stopped hfinished =>
          rw [hstop.new_canFinish.running] at hfinished
          cases hfinished
        | ended _ hrest => exact hrest
      rw [run_of_next_none (next_eq_none_of_rest hrest)]
      exact ⟨rfl, rfl⟩
    | some fault =>
      rw [hfault, Option.map_some] at hnext
      obtain ⟨final, hfinal⟩ := hstop.fault hnext
      rw [run_of_next_error hfinal]
      exact ⟨rfl, rfl⟩
  rw [hagain.run_eq]
  exact ⟨by rw [hend.1, List.append_nil], hend.2⟩

end Lexer

/-- An edition with templates but without the operators for powers reads every source as a newer one does,
with a star and what follows it in place of every operator for powers. It comes upon a fault exactly where
the newer one does, and upon the same. -/
theorem tokenize_without_powers {earlier later : Edition} (hearlier : 6 ≤ earlier.number)
    (hbefore : earlier.number ≤ 2015) (hlater : 2016 ≤ later.number) {source : Text} {limit : UInt64}
    (hlimit : source.length ≤ limit.toNat) :
    tokenize source { edition := earlier, iterationLimit := limit } =
      (tokenize source { edition := later, iterationLimit := limit }).map
        (·.flatMap Token.withoutPowers) := by
  have habreast : Lexer.Abreast (.ofText source { edition := earlier, iterationLimit := limit })
      (.ofText source { edition := later, iterationLimit := limit }) :=
    { cursor := rfl
      context := rfl
      straddle :=
        { templates := decide_eq_true hearlier
          without := decide_eq_false (UInt32.not_le.2 (UInt32.lt_of_le_of_lt hbefore (by decide)))
          powers := decide_eq_true hlater }
      old_canFinish := Lexer.canFinish_ofText hlimit
      new_canFinish := Lexer.canFinish_ofText hlimit }
  obtain ⟨htokens, hfault⟩ := habreast.run_eq
  rw [tokenize, Lexer.tokenize, Lexer.Run.result, htokens, hfault, tokenize, Lexer.tokenize,
    Lexer.Run.result]
  split
  · rfl
  · rfl

/-- Powers with and without assignment, and a chain of stars before what only then is a regular
expression. -/
def chainOfStars : Text := ['x', '*', '*', '=', 'y', '*', '*', '*', '=', '/', 'a', '/']

/-- The chain is cut in other places, and the slash means the same behind it. -/
theorem tokenize_without_powers_chainOfStars :
    let before : Settings := { edition := .ofNumber 2015, iterationLimit := 12 }
    let since : Settings := { edition := .ofNumber 2017, iterationLimit := 12 }
    tokenize chainOfStars before =
      (tokenize chainOfStars since).map (·.flatMap Token.withoutPowers) ∧
    (Lexer.ofText chainOfStars since).run.tokens.map Token.text =
      [['x'], ['*', '*', '='], ['y'], ['*', '*'], ['*', '='], ['/', 'a', '/']] ∧
    (Lexer.ofText chainOfStars before).run.tokens.map Token.text =
      [['x'], ['*'], ['*', '='], ['y'], ['*'], ['*'], ['*', '='], ['/', 'a', '/']] :=
  ⟨tokenize_without_powers (by decide) (by decide) (by decide) (by decide), by decide +kernel,
    by decide +kernel⟩

end EcmaLex
