import EcmaLex.Proofs.BraceDiscipline
import EcmaLex.Proofs.Checked
import EcmaLex.Proofs.Location
import Mathlib.Algebra.GroupWithZero.Nat

/-!
# Counters that do not start over

Lines, columns, open braces and applied rules are counted in words. Every one of them is bounded by the
place of the cursor: a line or a column more takes a character, and so does a brace, an interpolation or a rule
more. So a scan that checks each addition and subtraction, and has no result where one leaves the word,
gives what the unchecked scan gives, for every source up to `2 ^ 32 - 2` bytes: `counters_fit`.
-/

namespace EcmaLex

/-! ## Bounds by the place of the cursor -/

/-- The left braces and interpolations that are open, counted in two ways. -/
theorem sum_braceCounts (openers : List Opener) :
    (braceCounts openers).sum + openers.count .interpolation = openers.length := by
  induction openers with
  | nil => rfl
  | cons opener openers ih =>
    cases opener with
    | interpolation =>
      rw [braceCounts_interpolation, List.sum_cons, List.count_cons_self, List.length_cons]
      omega
    | brace =>
      obtain ⟨count, counts, hcounts⟩ := exists_braceCounts_eq openers
      rw [hcounts, List.sum_cons] at ih
      rw [braceCounts_brace hcounts, List.sum_cons, List.count_cons_of_ne (by decide),
        List.length_cons]
      omega

namespace Lexer

/-- Every counter is bounded by the place of the cursor. -/
structure Bounded (lexer : Lexer) : Prop where
  line_pos : 0 < lexer.cursor.location.line.toNat
  column_pos : 0 < lexer.cursor.location.column.toNat
  location_le : lexer.cursor.location.line.toNat + lexer.cursor.location.column.toNat ≤
    lexer.cursor.position + 2
  braces_le : (lexer.context.nesting.counters.map UInt32.toNat).sum + lexer.context.nesting.depth ≤
    lexer.cursor.position + 1

/-- The rules applied are the tokens so far, and one more after the last fault. -/
structure Counted (lexer : Lexer) : Prop where
  le_limit : lexer.iterations ≤ lexer.settings.iterationLimit
  running : lexer.finished = false → lexer.iterations.toNat ≤ lexer.cursor.position
  le_position : lexer.iterations.toNat ≤ lexer.cursor.position + 1

theorem Counted.after_call {lexer after : Lexer} {result : Option (Except Fault Token)}
    (h : lexer.Counted) (hcall : Call lexer result after) : after.Counted := by
  have hsucc : lexer.Live → lexer.iterations + 1 ≤ lexer.settings.iterationLimit ∧
      (lexer.iterations + 1).toNat ≤ lexer.cursor.position + 1 := by
    intro hlive
    have hcount := toNat_iterations_succ hlive.within
    have hwithin := UInt64.lt_iff_toNat_lt.1 hlive.within
    have hrunning := h.running hlive.running
    rw [UInt64.le_iff_toNat_le]
    omega
  cases hcall with
  | stopped => exact h
  | ended => exact ⟨h.le_limit, nofun, h.le_position⟩
  | limited => exact ⟨h.le_limit, nofun, h.le_position⟩
  | unrecognized hlive => exact ⟨(hsucc hlive).1, nofun, (hsucc hlive).2⟩
  | failed hlive => exact ⟨(hsucc hlive).1, nofun, (hsucc hlive).2⟩
  | @emitted hlive kind lexeme rest hselect =>
    obtain ⟨hlimit, hplace⟩ := hsucc hlive
    have hpos : 0 < lexeme.byteSize := Text.byteSize_pos (append_of_select hselect).1
    have hposition : (lexer.past kind lexeme rest).cursor.position =
        lexer.cursor.position + lexeme.byteSize := rfl
    refine ⟨hlimit, fun _ => ?_, ?_⟩
    · rw [hposition, iterations_past]
      omega
    · rw [hposition, iterations_past]
      omega

theorem counted_calls (source : Text) (settings : Settings) (n : Nat) :
    ((ofText source settings).calls n).2.Counted := by
  induction n with
  | zero => exact ⟨UInt64.zero_le, fun _ => Nat.le_refl 0, Nat.zero_le _⟩
  | succ n ih =>
    rw [calls_succ_snd]
    exact ih.after_call (call_next _)

theorem bounded_calls {source : Text} (settings : Settings) (hsize : source.byteSize ≤ 2 ^ 32 - 2)
    (n : Nat) : ((ofText source settings).calls n).2.Bounded := by
  have htracks := tracks_calls settings (by omega : source.byteSize < 2 ^ 32 - 1) n
  have hholds := not_overrun_calls (by omega : source.byteSize < 2 ^ 32) settings n
  obtain ⟨openers, hopen⟩ := nested_calls source settings n hholds
  have htokens := length_calls_le source settings n
  generalize (Lexer.ofText source settings).calls n = state at *
  have hplace := htracks.partition.tiles.length_le
  constructor
  · rw [htracks.isAfter.line_eq]
    omega
  · rw [htracks.isAfter.column_eq]
    omega
  · have hchars := Text.terminators_add_length_lastLine_le (Token.texts state.1)
    have hbytes := Text.length_le_byteSize (Token.texts state.1)
    rw [htracks.isAfter.line_eq, htracks.isAfter.column_eq, htracks.partition.stands.position_eq]
    omega
  · have hsum := sum_braceCounts openers
    have hopeners := length_openers_le hopen.matched
    rw [List.length_nil, List.length_map] at hopeners
    have hmirrors : state.2.context.nesting.counters.map UInt32.toNat = braceCounts openers :=
      hopen.mirrors
    rw [hmirrors, hopen.mirrors.depth_eq]
    omega

end Lexer

/-! ## The checked scan within the bounds -/

namespace Checked

theorem openBrace_eq {nesting : Nesting} (h : nesting.top.toNat + 1 < 2 ^ 32) :
    openBrace nesting = some nesting.openBrace := by
  have hone : (1 : UInt32).toNat = 1 := rfl
  rw [openBrace, add_eq (by omega)]
  rfl

theorem closeBrace_eq (nesting : Nesting) : closeBrace nesting = some nesting.closeBrace := by
  unfold closeBrace Nesting.closeBrace Nesting.closeBrace?
  by_cases htop : nesting.top = 0
  · rw [if_pos htop, if_pos htop]
    rfl
  · have hpos : nesting.top.toNat ≠ 0 := fun hzero => htop (UInt32.toNat_inj.1 hzero)
    have hone : (1 : UInt32).toNat ≤ nesting.top.toNat := Nat.pos_of_ne_zero hpos
    rw [if_neg htop, if_neg htop, sub, if_pos hone]
    rfl

theorem observe_eq {context : Context} (h : context.nesting.top.toNat + 1 < 2 ^ 32)
    (kind : TokenKind) : observe context kind = some (context.observe kind) := by
  cases kind with
  | leftBrace =>
    rw [observe, nestingAfter, openBrace_eq h]
    rfl
  | rightBrace =>
    rw [observe, nestingAfter, closeBrace_eq]
    rfl
  | _ => rfl

section Ahead

variable {lexer : Lexer} {done : Text} (hstands : lexer.cursor.StandsAfter done)
  (hsize : lexer.cursor.source.byteSize ≤ 2 ^ 32 - 2) (hbounded : lexer.Bounded)

include hstands hsize hbounded

theorem advance_eq {piece rest : Text} (happend : piece ++ rest = lexer.cursor.rest) :
    advance lexer.cursor piece rest = some (lexer.cursor.advance piece rest) := by
  have hchars := Text.length_le_byteSize piece
  have hahead := hstands.byteSize_eq
  have hline := hbounded.line_pos
  have hcolumn := hbounded.column_pos
  have hlocation := hbounded.location_le
  rw [← happend, Text.byteSize_append] at hahead
  rw [advance, after_eq (by omega) (by omega) (by omega)]
  rfl

theorem toNat_top_lt (hne : lexer.cursor.rest ≠ []) : lexer.context.nesting.top.toNat + 1 < 2 ^ 32 := by
  have hpos := Text.byteSize_pos hne
  have hahead := hstands.byteSize_eq
  have hbraces := hbounded.braces_le
  rw [Nesting.counters, List.map_cons, List.sum_cons, Nesting.depth] at hbraces
  omega

theorem step_eq (hne : lexer.cursor.rest ≠ []) : step lexer = some lexer.step := by
  by_cases hlimit : lexer.settings.iterationLimit ≤ lexer.iterations
  · simp only [step, Lexer.step, if_pos hlimit]
  · have hcount : lexer.iterations.toNat + 1 < 2 ^ 64 := by
      have hbelow := UInt64.lt_iff_toNat_lt.1 (UInt64.not_le.1 hlimit)
      have hword := lexer.settings.iterationLimit.toNat_lt
      omega
    simp only [step, Lexer.step, if_neg hlimit, if_pos hcount]
    cases hselect : select lexer.settings.edition lexer.context lexer.cursor.rest with
    | none => rfl
    | some found =>
      obtain ⟨action, lexeme, rest⟩ := found
      cases action with
      | emit kind =>
        have hmoved := advance_eq hstands hsize hbounded (append_of_select hselect).2
        have hobserved := observe_eq (toNat_top_lt hstands hsize hbounded hne) kind
        simp only [hmoved, hobserved, bind, Option.bind_some]
      | fail diagnosis => rfl

theorem next_eq : next lexer = some lexer.next := by
  unfold next Lexer.next
  by_cases hrun : lexer.finished = true
  · rw [if_pos hrun, if_pos hrun]
  · rw [if_neg hrun, if_neg hrun]
    by_cases hend : lexer.cursor.atEnd = true
    · rw [if_pos hend, if_pos hend]
    · have hne : lexer.cursor.rest ≠ [] := by simpa [Cursor.atEnd] using hend
      rw [if_neg hend, if_neg hend, step_eq hstands hsize hbounded hne]
      obtain ⟨_ | _, after⟩ := lexer.step <;> rfl

end Ahead

end Checked

/-- For every source up to `2 ^ 32 - 2` bytes, in every state that calls can lead to, lines and columns, open
braces and interpolations, and the rules applied are bounded by the place of the cursor. No count leaves its
word in the next call either: with every addition and subtraction checked it gives the same. -/
theorem counters_fit (source : Text) (hsize : source.byteSize ≤ 2 ^ 32 - 2) (settings : Settings)
    (n : Nat) :
    let lexer := ((Lexer.ofText source settings).calls n).2
    let location := lexer.cursor.location
    let nesting := lexer.context.nesting
    location.line.toNat + location.column.toNat ≤ lexer.cursor.position + 2 ∧
      (nesting.counters.map UInt32.toNat).sum + nesting.depth ≤ lexer.cursor.position + 1 ∧
      lexer.iterations.toNat ≤ min settings.iterationLimit.toNat (lexer.cursor.position + 1) ∧
      Checked.next lexer = some lexer.next := by
  have hbounded := Lexer.bounded_calls settings hsize n
  have hcounted := Lexer.counted_calls source settings n
  have hpartition := partition_calls source settings n
  have hsettings := Lexer.settings_calls (Lexer.ofText source settings) n
  refine ⟨hbounded.location_le, hbounded.braces_le, ?_, ?_⟩
  · have hlimit := UInt64.le_iff_toNat_le.1 hcounted.le_limit
    rw [hsettings] at hlimit
    exact Nat.le_min.2 ⟨hlimit, hcounted.le_position⟩
  · refine Checked.next_eq hpartition.stands ?_ hbounded
    rw [hpartition.source_eq]
    exact hsize

/-- An interpolation and a brace are left open before a line end, and behind it stands what begins nothing. -/
theorem counters_fit_openTemplate :
    let source : Text := [Template.backquote, '$', '{', '{', '\r', '\n', '#']
    let lexer := ((Lexer.ofText source { edition := .es2015 }).calls 4).2
    source.byteSize ≤ 2 ^ 32 - 2 ∧
      (lexer.cursor.position = 6 ∧ lexer.cursor.location = ⟨2, 1⟩ ∧
        lexer.context.nesting = ⟨1, [0]⟩ ∧ lexer.iterations = 4 ∧ lexer.finished = true) ∧
      Checked.next lexer = some lexer.next := by
  intro source lexer
  have hsize : source.byteSize ≤ 2 ^ 32 - 2 := by decide
  obtain ⟨-, -, -, hnext⟩ := counters_fit source hsize { edition := .es2015 } 4
  exact ⟨hsize, by decide +kernel, hnext⟩

end EcmaLex
