import EcmaLex.Proofs.Partition
import EcmaLex.Proofs.Rest.Select

/-!
# What a fault leaves behind and where it points

A fault ends the scan where it stands: cursor and context are as before it, and nothing is given after it.
Its span begins at the cursor and holds the piece of the text ahead that the fault is about,
`Fault.Describes`: for the limit all of it, else a piece of one line.
-/

namespace EcmaLex

open Matcher

/-- No character of the text ends a line. -/
def Text.IsOneLine (text : Text) : Prop :=
  ∀ c ∈ text, isLineTerminator c = false

/-- The text ahead begins with this line, up to the first LF or CR. -/
def Text.BeginsWithLine (ahead line : Text) : Prop :=
  line.IsOneLine ∧ ∃ later, line ++ later = ahead ∧ later.head?.all isLineTerminator = true

theorem Text.beginsWithLine_firstLine (text : Text) : text.BeginsWithLine text.firstLine := by
  have happend := Text.run_append (fun c => !isLineTerminator c) text
  generalize hrun : text.run (fun c => !isLineTerminator c) = found at happend
  obtain ⟨line, later⟩ := found
  have hfirst : text.firstLine = line := congrArg Prod.fst hrun
  rw [← happend, Text.run_eq_iff] at hrun
  obtain ⟨hline, hlater⟩ := hrun
  rw [hfirst]
  refine ⟨fun c hc => by simpa using hline c hc, later, happend, ?_⟩
  cases later with
  | nil => rfl
  | cons c later => simpa using hlater

/-- A fault is about a piece at the start of the text ahead, and says of it what is there. -/
def Fault.Describes (piece ahead : Text) : Fault → Prop
  | .malformedNumeral _ text _ => text = piece ∧ piece.IsOneLine
  | .unfinished _ _ => piece.IsOneLine
  | .unmatchedBrace _ => piece.IsOneLine
  | .unrecognized line _ =>
    piece.IsOneLine ∧ ahead.BeginsWithLine line ∧ ∃ c, piece = [c] ∧ line.head? = some c
  | .iterationLimit _ _ => piece = ahead

/-- A rule for malformed text goes no further than the line. -/
theorem oneLine_of_fail : ∀ rule ∈ rules, ∀ diagnosis, rule.action = .fail diagnosis →
    rule.matcher.OneLine := by
  have hopening := oneLine_toLineEnd
  refine forall_mem_rules.2 ⟨?blank, ?numeral, ?quotation, ?template,
    fun rule h _ _ => oneLine_of_mem_wordRules rule h, ?comment,
    fun rule h _ _ => oneLine_of_mem_regExpRules rule h, ?operator, ?punctuation⟩
  case numeral =>
    intro rule h _ _
    refine (within_of_mem_numeralRules rule h).mono fun c hc => ?_
    rw [Numeral.isLineTerminator_of_isPart hc]
    rfl
  all_goals
    simp only [blankRules, quotationRules, templateRules, commentRules, operatorRules, punctuationRules,
      List.forall_mem_cons, List.not_mem_nil, false_imp_iff, implies_true, and_true, reduceCtorEq,
      true_and]
  case quotation => exact fun _ _ => (hopening _).orElse (hopening _)
  case template => exact ⟨fun _ _ => hopening _, fun _ _ => hopening _⟩
  case comment => exact fun _ _ => hopening _
  case punctuation => exact fun _ _ => within_exactly (by decide)

theorem isOneLine_of_select {edition : Edition} {context : Context} {text lexeme rest : Text}
    {diagnosis : Diagnosis}
    (h : select edition context text = some { action := .fail diagnosis, lexeme, rest }) :
    lexeme.IsOneLine := by
  obtain ⟨rule, hmem, -, haction, hmatch⟩ := exists_of_firstOf h
  intro c hc
  simpa using oneLine_of_fail rule hmem diagnosis haction hmatch c hc

/-- A line terminator is always recognized. -/
theorem isLineTerminator_head_of_select_eq_none {edition : Edition}
    (hes5 : edition.includes .es5 = true) {context : Context} {c : Char} {rest : Text}
    (h : select edition context (c :: rest) = none) : isLineTerminator c = false := by
  have hnone := firstOf_eq_none_iff.1 (show firstOf rules edition context (c :: rest) = none from h)
  have hmem : blankRules[1] ∈ rules := by
    simp [rules, blankRules]
  have happlies : blankRules[1].applies edition context = true := by
    rw [Rule.applies, Bool.and_eq_true]
    exact ⟨hes5, rfl⟩
  have hend := lineEnd_eq_none_iff.1 (hnone _ hmem happlies)
  simpa using hend

namespace Lexer

/-- A fault is about a piece at the start of the text ahead and leaves the scan where it is. -/
theorem exists_piece_of_next_error {lexer after : Lexer} {fault : Fault}
    (hes5 : lexer.settings.edition.includes .es5 = true)
    (h : lexer.next = (some (.error fault), after)) :
    after.cursor = lexer.cursor ∧ after.context = lexer.context ∧ after.finished = true ∧
      ∃ piece rest, piece ≠ [] ∧ piece ++ rest = lexer.cursor.rest ∧
        fault.span = lexer.cursor.spanOf piece ∧ fault.Describes piece lexer.cursor.rest := by
  cases call_of_next h with
  | limited _ hrest _ =>
    exact ⟨rfl, rfl, rfl, lexer.cursor.rest, [], hrest, List.append_nil _, rfl, rfl⟩
  | unrecognized hlive hselect =>
    obtain ⟨c, rest, hahead⟩ := List.exists_cons_of_ne_nil hlive.ahead
    unfold selection at hselect
    rw [hahead] at hselect ⊢
    have hc := isLineTerminator_head_of_select_eq_none hes5 hselect
    refine ⟨rfl, rfl, rfl, [c], rest, List.cons_ne_nil _ _, rfl, rfl, ?_,
      Text.beginsWithLine_firstLine _, c, rfl, ?_⟩
    · intro d hd
      rwa [List.mem_singleton.1 hd]
    · simp [Text.firstLine, hc]
  | @failed _ diagnosis lexeme rest hselect =>
    obtain ⟨hne, happend⟩ := append_of_select hselect
    have hline := isOneLine_of_select hselect
    refine ⟨rfl, rfl, rfl, lexeme, rest, hne, happend, ?_⟩
    cases diagnosis with
    | malformedNumeral => exact ⟨rfl, rfl, hline⟩
    | unfinished => exact ⟨rfl, hline⟩
    | unmatchedBrace => exact ⟨rfl, hline⟩

/-- A lexer that has finished stays as it is. -/
theorem calls_of_finished {lexer : Lexer} (h : lexer.finished = true) (n : Nat) :
    lexer.calls n = ([], lexer) := by
  induction n with
  | zero => rfl
  | succ n ih => rw [calls, ih, (Call.stopped h).next_eq]

end Lexer

/-- Whatever was called before, a fault leaves cursor and context as they are, nothing is given after it and
nothing changes any more, and to tokenize gives the fault alone. Its span begins at the cursor and holds the
piece of the source that it describes, all that is ahead for the limit and a piece of one line else. -/
theorem fault_keeps_scan (source : Text) {settings : Settings}
    (hes5 : settings.edition.includes .es5 = true) (n : Nat) {fault : Fault} {after : Lexer}
    (hnext : ((Lexer.ofText source settings).calls n).2.next = (some (.error fault), after)) :
    let lexer := ((Lexer.ofText source settings).calls n).2
    (after.cursor = lexer.cursor ∧ after.context = lexer.context) ∧
    (∀ m, (after.calls m).2.next = (none, after)) ∧
    (lexer.run.tokens = [] ∧ lexer.tokenize = .error fault) ∧
    fault.span.start = lexer.cursor.position ∧ fault.span.start < fault.span.stop ∧
    fault.span.stop ≤ source.byteSize ∧
    (fault.liesInSource = false → fault.span.stop = source.byteSize) ∧
    ∃ piece, source.slice? fault.span.start fault.span.stop = some piece ∧
      fault.Describes piece lexer.cursor.rest := by
  intro lexer
  have hes5' : lexer.settings.edition.includes .es5 = true := by
    rwa [show lexer.settings = settings from Lexer.settings_calls _ n]
  have hpartition := partition_calls source settings n
  have hstands := hpartition.stands
  obtain ⟨hcursor, hcontext, hfinished, piece, rest, hne, happend, hspan, hdescribes⟩ :=
    Lexer.exists_piece_of_next_error hes5' hnext
  have hrun := Lexer.run_of_next_error hnext
  have hstart : fault.span.start = lexer.cursor.position := congrArg Span.start hspan
  have hstop : fault.span.stop = lexer.cursor.position + Text.byteSize piece := congrArg Span.stop hspan
  have hpos := Text.byteSize_pos hne
  have hend : source.byteSize = lexer.cursor.position + Text.byteSize (piece ++ rest) := by
    rw [happend, ← hpartition.source_eq]
    exact hstands.byteSize_eq
  have hbytes := Text.byteSize_append piece rest
  refine ⟨⟨hcursor, hcontext⟩, fun m => ?_, ⟨by rw [hrun], by rw [Lexer.tokenize, hrun]; rfl⟩, hstart,
    by omega, by omega, fun hlimit => ?_, piece, ?_, hdescribes⟩
  · rw [Lexer.calls_of_finished hfinished]
    exact (Lexer.Call.stopped hfinished).next_eq
  · cases fault with
    | iterationLimit =>
      have hpiece : piece = lexer.cursor.rest := hdescribes
      rw [hstop, hend, happend, hpiece]
    | _ => cases hlimit
  · rw [hstart, hstop, ← hpartition.source_eq]
    exact hstands.slice?_eq happend

/-- A character that opens nothing, with text of more bytes than characters behind it on its line. -/
theorem fault_keeps_scan_unrecognized :
    let source : Text := ['a', ' ', '#', 'é', '\r', '\n']
    let lexer := ((Lexer.ofText source {}).calls 2).2
    let after := lexer.next.2
    let fault : Fault := .unrecognized ['#', 'é'] ⟨2, 3, ⟨1, 3⟩⟩
    lexer.next = (some (.error fault), after) ∧
    after.cursor = lexer.cursor ∧ (∀ m, (after.calls m).2.next = (none, after)) ∧
    lexer.tokenize = .error fault ∧ source.slice? 2 3 = some ['#'] ∧
    fault.Describes ['#'] ['#', 'é', '\r', '\n'] := by
  intro source lexer after fault
  have hnext : lexer.next = (some (.error fault), after) := Prod.ext (by decide +kernel) rfl
  obtain ⟨⟨hcursor, -⟩, hstops, ⟨-, hresult⟩, -, -, -, -, piece, hslice, hdescribes⟩ :=
    fault_keeps_scan source (by decide) 2 hnext
  have hfound : source.slice? 2 3 = some ['#'] := by decide +kernel
  have hahead : lexer.cursor.rest = ['#', 'é', '\r', '\n'] := by decide +kernel
  obtain rfl : ['#'] = piece := Option.some.inj (hfound.symm.trans hslice)
  exact ⟨hnext, hcursor, hstops, hresult, hfound, hahead ▸ hdescribes⟩

end EcmaLex
