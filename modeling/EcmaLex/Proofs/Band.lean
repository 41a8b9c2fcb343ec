import EcmaLex.Proofs.Introduced
import EcmaLex.Proofs.Run

/-!
# Bands of editions

A rule takes part in an edition that includes its own, and rules have been introduced in three editions
only. Two editions that include the same of these three are of one band, and scan every source alike:
`run_under`. In the band before the oldest of the three, no rule takes part.
-/

namespace EcmaLex

/-- Two editions whose numbers lie on the same side of every threshold. -/
def Edition.SameBand (first second : Edition) : Prop :=
  ∀ threshold ∈ [(5 : UInt32), 6, 2016], threshold ≤ first.number ↔ threshold ≤ second.number

/-- Decided threshold by threshold. -/
instance (first second : Edition) : Decidable (first.SameBand second) :=
  List.decidableBAll (fun threshold => threshold ≤ first.number ↔ threshold ≤ second.number) _

theorem Edition.SameBand.includes_eq {first second : Edition} (h : first.SameBand second)
    {since : Edition} (hsince : since.number ∈ [(5 : UInt32), 6, 2016]) :
    first.includes since = second.includes since :=
  decide_eq_decide.2 (h _ hsince)

/-- Editions of one band select alike, in every context and at every text. -/
theorem select_eq_of_sameBand {first second : Edition} (h : first.SameBand second)
    (context : Context) (text : Text) : select first context text = select second context text := by
  apply select_congr
  intro rule hmem
  left
  have hsince : rule.since.number ∈ [(5 : UInt32), 6, 2016] := by
    rcases since_of_mem_rules rule hmem with heq | heq | ⟨heq, -⟩ <;> rw [heq] <;> decide
  rw [Rule.applies, Rule.applies, h.includes_eq hsince]

/-- Before the oldest edition there are no rules. -/
theorem select_eq_none_of_lt {edition : Edition} (h : edition.number < 5) (context : Context)
    (text : Text) : select edition context text = none := by
  rw [Option.eq_none_iff_forall_ne_some]
  intro found hselect
  have hes5 : 5 ≤ edition.number := of_decide_eq_true (includes_es5_of_select hselect)
  exact UInt32.not_le.2 h hes5

namespace Lexer

/-- The same lexer, following another edition from here on. -/
def under (lexer : Lexer) (edition : Edition) : Lexer :=
  { lexer with settings := { lexer.settings with edition } }

theorem next_under {lexer : Lexer} {edition : Edition}
    (h : lexer.settings.edition.SameBand edition) :
    (lexer.under edition).next = (lexer.next.1, lexer.next.2.under edition) := by
  have hselection : (lexer.under edition).selection = lexer.selection :=
    (select_eq_of_sameBand h lexer.context lexer.cursor.rest).symm
  have hcall := call_next lexer
  have hsame := hcall.withSettings hselection (fun _ _ _ => rfl) fun _ hwithin => hwithin
  rw [under, under, hcall.settings_eq]
  exact hsame.next_eq

/-- Following another edition of the same band, a lexer gives the same tokens and the same fault. -/
theorem run_under {lexer : Lexer} {edition : Edition}
    (h : lexer.settings.edition.SameBand edition) :
    (lexer.under edition).run = { lexer.run with final := lexer.run.final.under edition } := by
  have hnext := next_under h
  fun_induction run lexer with
  | case1 lexer final he =>
    rw [he] at hnext
    exact run_of_next_none hnext
  | case2 lexer fault final he =>
    rw [he] at hnext
    exact run_of_next_error hnext
  | case3 lexer token after he later ih =>
    rw [he] at hnext
    obtain ⟨-, _, _, _, -, -, rfl⟩ := next_eq_token_iff.1 he
    rw [(emits_singleton hnext).run_eq, ih h (next_under h)]
    rfl

/-- In an edition before the oldest one, nothing is understood. -/
theorem fault_of_lt_five {lexer : Lexer} (hlive : lexer.Live)
    (h : lexer.settings.edition.number < 5) :
    lexer.run.fault = some (.unrecognized lexer.cursor.rest.firstLine
      (lexer.cursor.spanOf (lexer.cursor.rest.take 1))) := by
  have hnone : lexer.selection = none := select_eq_none_of_lt h _ _
  rw [run_of_next_error (Call.unrecognized hlive hnone).next_eq]

end Lexer

/-- Two numbers that mean editions of one band give the same tokens or the same fault for every source,
whether or not editions of these numbers have been published. A number before the oldest edition is
accepted as well, but in its band no source is understood that holds anything. -/
theorem tokenize_eq_of_sameBand (source : Text) (limit : UInt64) :
    (∀ first second : UInt32, (Edition.ofNumber first).SameBand (.ofNumber second) →
      tokenize source { edition := .ofNumber first, iterationLimit := limit } =
        tokenize source { edition := .ofNumber second, iterationLimit := limit }) ∧
    ∀ number : UInt32, (Edition.ofNumber number).number < 5 → source ≠ [] → 0 < limit →
      tokenize source { edition := .ofNumber number, iterationLimit := limit } =
        .error (.unrecognized source.firstLine ⟨0, Text.byteSize (source.take 1), .start⟩) := by
  constructor
  · intro first second hband
    have hrun := @Lexer.run_under
      (.ofText source { edition := .ofNumber first, iterationLimit := limit })
      (.ofNumber second) hband
    exact (congrArg Lexer.Run.result hrun).symm
  · intro number hbelow hne hlimit
    have hfault := @Lexer.fault_of_lt_five
      (.ofText source { edition := .ofNumber number, iterationLimit := limit }) ⟨rfl, hne, hlimit⟩
      hbelow
    rw [Cursor.spanOf, Lexer.ofText, Cursor.ofText, Nat.zero_add] at hfault
    exact Lexer.Run.result_eq_error_iff.2 hfault

/-- Nobody has published an edition 8, but it is of the band of 2015. -/
theorem tokenize_eq_of_sameBand_eight :
    let source : Text := ['a', '*', '*', 'b']
    let eight : Settings := { edition := .ofNumber 8, iterationLimit := 4 }
    eight.edition.SameBand (.ofNumber 2015) ∧
    tokenize source eight =
      tokenize source { edition := .ofNumber 2015, iterationLimit := 4 } ∧
    (Lexer.ofText source eight).run.tokens.map Token.kind =
      [.identifier, .operator, .operator, .identifier] := by
  intro source eight
  have hband : eight.edition.SameBand (.ofNumber 2015) := by decide
  exact ⟨hband, (tokenize_eq_of_sameBand source 4).1 8 2015 hband, by decide +kernel⟩

/-- The numbers 3 and 5 lie on the same side of 6 and of 2016, but not in one band. -/
theorem tokenize_ne_below_oldest :
    ((6 : UInt32) ≤ (Edition.ofNumber 3).number ↔ 6 ≤ (Edition.ofNumber 5).number) ∧
    ((2016 : UInt32) ≤ (Edition.ofNumber 3).number ↔ 2016 ≤ (Edition.ofNumber 5).number) ∧
    tokenize ['a'] { edition := .ofNumber 3 } =
      .error (.unrecognized ['a'] ⟨0, 1, ⟨1, 1⟩⟩) ∧
    tokenize ['a'] { edition := .ofNumber 5 } = .ok [⟨.identifier, ['a'], ⟨0, 1, ⟨1, 1⟩⟩⟩] :=
  ⟨by decide, by decide, Lexer.Run.result_eq_error_iff.2 (by decide +kernel),
    Lexer.Run.result_eq_ok_iff.2 ⟨by decide +kernel, by decide +kernel⟩⟩

end EcmaLex
