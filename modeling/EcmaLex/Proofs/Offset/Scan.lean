import EcmaLex.Proofs.Counters
import EcmaLex.Proofs.Offset.Line
import EcmaLex.Proofs.Offset.Table

/-!
# Scanning by byte offsets

Here a scan only knows its source and a byte position in it. The text ahead, a lexeme and the first
line of a text are cut out of the source by offsets, the rules are applied by their measures, a span
must not start past its end, a right brace must have a brace to close, and no count may leave its
word. Where one of these is not given there is no result.

What the rules find are whole pieces of the text, and the cursor stands after the tokens so far. So in
every state that calls lead to, only a count can be what is missing: `next?_eq`. In a source of at most
`2 ^ 32 - 2` bytes no count is, and the result is that of `next`. A line of a comment that takes one
byte more has no result.
-/

namespace EcmaLex

open Text

/-- A span, which must not start past its end. -/
def Span.new? (start stop : Nat) (location : Location) : Option Span :=
  if start ≤ stop then some { start, stop, location } else none

namespace Cursor

def remaining? (cursor : Cursor) : Option Text :=
  cursor.source.dropBytes? cursor.position

/-- The span of `size` bytes from here on, cut short at the end of the source. -/
def spanAhead? (cursor : Cursor) (size : Nat) : Option Span :=
  Span.new? cursor.position (min (cursor.position + size) cursor.source.byteSize) cursor.location

/-- Moves over the next `size` bytes, which are cut out of the source. -/
def moveBy? (cursor : Cursor) (size : Nat) : Option (Text × Span × Cursor) := do
  let stop := cursor.position + size
  let piece ← cursor.source.slice? cursor.position stop
  let span ← Span.new? cursor.position stop cursor.location
  let breaks ← piece.lineBreaks?
  let location ← Checked.moved cursor.location piece breaks
  let rest ← cursor.source.dropBytes? stop
  some (piece, span, { cursor with rest, position := stop, location })

end Cursor

/-- The context after one more token. A right brace must have a brace to close. -/
def Context.observe? (context : Context) (kind : TokenKind) : Option Context :=
  if kind = .rightBrace ∧ context.nesting.closeBrace? = none then none
  else Checked.observe context kind

/-- The fault found in the first `size` bytes of a text, which are cut out where it names them. -/
def Diagnosis.fault? (text : Text) (size : Nat) (span : Span) : Diagnosis → Option Fault
  | malformedNumeral problem =>
    (text.takeBytes? size).map fun lexeme => .malformedNumeral problem lexeme span
  | unfinished construct => some (.unfinished construct span)
  | unmatchedBrace => some (.unmatchedBrace span)

namespace Lexer

def step? (lexer : Lexer) : Option (Except Fault Token × Lexer) := do
  let limit := lexer.settings.iterationLimit
  let rest ← lexer.cursor.remaining?
  if limit ≤ lexer.iterations then do
    let span ← lexer.cursor.spanAhead? rest.byteSize
    some (.error (.iterationLimit limit span), lexer)
  else if lexer.iterations.toNat + 1 < 2 ^ 64 then
    let counted := { lexer with iterations := lexer.iterations + 1 }
    match ← selectSize lexer.settings.edition lexer.context rest with
    | none => do
      let line ← rest.firstLine?
      let span ← lexer.cursor.spanAhead? ((rest.head?.map Char.utf8Size).getD 1)
      some (.error (.unrecognized line span), counted)
    | some (.emit kind, size) => do
      let (piece, span, cursor) ← lexer.cursor.moveBy? size
      let context ← lexer.context.observe? kind
      some (.ok { kind, text := piece, span }, { counted with cursor, context })
    | some (.fail diagnosis, size) => do
      let span ← lexer.cursor.spanAhead? size
      let fault ← diagnosis.fault? rest size span
      some (.error fault, counted)
  else none

def next? (lexer : Lexer) : Option (Option (Except Fault Token) × Lexer) :=
  if lexer.finished then some (none, lexer)
  else if lexer.cursor.source.byteSize ≤ lexer.cursor.position then
    some (none, { lexer with finished := true })
  else do
    match ← lexer.step? with
    | (.ok token, after) => some (some (.ok token), after)
    | (.error fault, after) => some (some (.error fault), { after with finished := true })

end Lexer

namespace Cursor.StandsAfter

variable {cursor : Cursor} {done : Text}

theorem remaining?_eq (h : cursor.StandsAfter done) : cursor.remaining? = some cursor.rest := by
  rw [remaining?, h.source_eq, h.position_eq, dropBytes?_append]

theorem atEnd_iff (h : cursor.StandsAfter done) :
    cursor.source.byteSize ≤ cursor.position ↔ cursor.atEnd = true := by
  rw [h.byteSize_eq, Cursor.atEnd, List.isEmpty_iff, ← byteSize_eq_zero_iff]
  omega

theorem spanAhead?_eq (h : cursor.StandsAfter done) {piece rest : Text}
    (happend : piece ++ rest = cursor.rest) :
    cursor.spanAhead? piece.byteSize = some (cursor.spanOf piece) := by
  have hsize : cursor.position + piece.byteSize ≤ cursor.source.byteSize := by
    rw [h.byteSize_eq, ← happend, byteSize_append]
    omega
  rw [spanAhead?, Nat.min_eq_left hsize, Span.new?, if_pos (Nat.le_add_right _ _)]
  rfl

/-- The span of the first character ahead. At the end of the source it is cut short to nothing. -/
theorem spanAhead?_first (h : cursor.StandsAfter done) :
    cursor.spanAhead? ((cursor.rest.head?.map Char.utf8Size).getD 1) =
      some (cursor.spanOf (cursor.rest.take 1)) := by
  cases hrest : cursor.rest with
  | nil =>
    have hsize := h.byteSize_eq
    rw [hrest, byteSize_nil] at hsize
    have hmin : min (cursor.position + 1) cursor.source.byteSize = cursor.position + 0 := by omega
    rw [List.head?_nil, Option.map_none, Option.getD_none, spanAhead?, hmin, Span.new?,
      if_pos (Nat.le_add_right _ _)]
    rfl
  | cons c rest =>
    have hpiece : [c] ++ rest = cursor.rest := hrest.symm
    have hsize : byteSize [c] = c.utf8Size := by rw [byteSize_cons, byteSize_nil, Nat.add_zero]
    have hspan := h.spanAhead?_eq hpiece
    rwa [hsize] at hspan

/-- Over a piece of the text ahead only the counts can fail. -/
theorem moveBy?_eq (h : cursor.StandsAfter done) {piece rest : Text}
    (happend : piece ++ rest = cursor.rest) :
    cursor.moveBy? piece.byteSize =
      (Checked.advance cursor piece rest).map fun after => (piece, cursor.spanOf piece, after) := by
  have hslice : cursor.source.slice? cursor.position (cursor.position + piece.byteSize) =
      some piece := by
    rw [h.source_eq, h.position_eq, ← happend, slice?_append]
  have hspan : Span.new? cursor.position (cursor.position + piece.byteSize) cursor.location =
      some (cursor.spanOf piece) := if_pos (Nat.le_add_right _ _)
  have hrest : cursor.source.dropBytes? (cursor.position + piece.byteSize) = some rest := by
    rw [h.source_eq, h.position_eq, ← happend, ← byteSize_append, ← List.append_assoc,
      dropBytes?_append]
  simp only [moveBy?, hslice, hspan, hrest, lineBreaks?_eq, bind, Option.bind_some, Checked.advance,
    Checked.after, Option.map_map]
  cases Checked.lineBreaks piece with
  | none => rfl
  | some breaks => exact Option.map_eq_bind.symm

end Cursor.StandsAfter

theorem Diagnosis.fault?_eq (lexeme rest : Text) (span : Span) (diagnosis : Diagnosis) :
    diagnosis.fault? (lexeme ++ rest) lexeme.byteSize span = some (diagnosis.fault lexeme span) := by
  cases diagnosis with
  | malformedNumeral problem => rw [fault?, takeBytes?_append]; rfl
  | unfinished construct => rfl
  | unmatchedBrace => rfl

/-- A right brace is only selected where there is a brace to close. -/
theorem Context.observe?_eq_of_select {edition : Edition} {context : Context}
    {text lexeme rest : Text} {kind : TokenKind}
    (h : select edition context text = some { action := .emit kind, lexeme, rest }) :
    context.observe? kind = Checked.observe context kind := by
  obtain ⟨rule, hmem, -, hguard, haction, -⟩ := exists_of_select h
  have hadmits := admits_of_guard context rule hmem hguard kind haction
  refine if_neg fun hbrace => ?_
  obtain ⟨rfl, hnone⟩ := hbrace
  have htop : context.nesting.top ≠ 0 := hadmits
  simp [Nesting.closeBrace?, htop] at hnone

namespace Lexer

/-- Where the cursor stands after some text of the source, a step finds all it asks for but the counts. -/
theorem step?_eq {lexer : Lexer} {done : Text} (h : lexer.cursor.StandsAfter done) :
    lexer.step? = Checked.step lexer := by
  simp only [step?, h.remaining?_eq, bind, Option.bind_some]
  by_cases hlimit : lexer.settings.iterationLimit ≤ lexer.iterations
  · have hspan := h.spanAhead?_eq (List.append_nil lexer.cursor.rest)
    simp only [Checked.step, if_pos hlimit, hspan, Option.bind_some]
  · simp only [Checked.step, if_neg hlimit, selectSize_eq, Option.bind_some]
    refine ite_congr rfl (fun _ => ?_) fun _ => rfl
    cases hselect : select lexer.settings.edition lexer.context lexer.cursor.rest with
    | none =>
      simp only [Option.map_none, firstLine?_eq, h.spanAhead?_first, Option.bind_some]
    | some found =>
      obtain ⟨action, lexeme, rest⟩ := found
      have happend := (append_of_select hselect).2
      cases action with
      | emit kind =>
        have hobserve := Context.observe?_eq_of_select hselect
        simp only [Option.map_some, h.moveBy?_eq happend, hobserve, Option.bind_map]
        rfl
      | fail diagnosis =>
        have hfault := diagnosis.fault?_eq lexeme rest (lexer.cursor.spanOf lexeme)
        simp only at happend
        rw [happend] at hfault
        simp only [Option.map_some, h.spanAhead?_eq happend, hfault, Option.bind_some]

theorem next?_eq {lexer : Lexer} {done : Text} (h : lexer.cursor.StandsAfter done) :
    lexer.next? = Checked.next lexer := by
  unfold next? Checked.next
  by_cases hrun : lexer.finished = true
  · rw [if_pos hrun, if_pos hrun]
  · rw [if_neg hrun, if_neg hrun]
    by_cases hend : lexer.cursor.atEnd = true
    · rw [if_pos (h.atEnd_iff.2 hend), if_pos hend]
    · rw [if_neg (fun hle => hend (h.atEnd_iff.1 hle)), if_neg hend, step?_eq h]
      cases Checked.step lexer with
      | none => rfl
      | some found =>
        obtain ⟨_ | _, after⟩ := found <;> rfl

end Lexer

/-- Reading by offsets never cuts illegally, and finds nothing or, as the matcher does, a piece of at
least one byte from the start of the text to the end of a character. -/
def FindsLegally (rule : Rule) (measure : Measure) : Prop :=
  ∀ text,
    measure text = some none ∧ rule.matcher text = none ∨
      ∃ size lexeme rest, measure text = some (some size) ∧
        rule.matcher text = some (lexeme, rest) ∧ 1 ≤ size ∧ size ≤ text.byteSize ∧
          text.splitAtByte? size = some (lexeme, rest)

theorem Measures.findsLegally {measure : Measure} {rule : Rule} (lawful : rule.matcher.Lawful)
    (h : Measures measure rule.matcher) : FindsLegally rule measure := by
  intro text
  have hmeasure := h text
  cases hmatch : rule.matcher text with
  | none =>
    rw [hmatch] at hmeasure
    exact .inl ⟨hmeasure, rfl⟩
  | some found =>
    obtain ⟨lexeme, rest⟩ := found
    rw [hmatch] at hmeasure
    obtain ⟨hne, rfl⟩ := lawful hmatch
    have hpos := byteSize_pos hne
    refine .inr ⟨lexeme.byteSize, lexeme, rest, hmeasure, rfl, by omega, ?_, ?_⟩
    · rw [byteSize_append]
      omega
    · exact splitAtByte?_byteSize_append lexeme rest

/-- Each rule reads any text without an illegal cut. In every call of a scan only a count can fail to give a
result: by offsets a call gives what it gives with its arithmetic checked. In a source of at most
`2 ^ 32 - 2` bytes no count fails, and the call gives what `next` gives. -/
theorem scan_cuts_legally :
    List.Forall₂ FindsLegally rules measures ∧
      ∀ (source : Text) (settings : Settings) (n : Nat),
        let lexer := ((Lexer.ofText source settings).calls n).2
        lexer.next? = Checked.next lexer ∧
          (source.byteSize ≤ 2 ^ 32 - 2 → lexer.next? = some lexer.next) := by
  constructor
  · have hlawful := (List.forall₂_and_left _ _).2 ⟨lawful_of_mem_rules, measured_rules⟩
    exact hlawful.imp fun rule measure h => h.2.findsLegally h.1
  · intro source settings n lexer
    have hpartition := partition_calls source settings n
    have hchecked : lexer.next? = Checked.next lexer := Lexer.next?_eq hpartition.stands
    refine ⟨hchecked, fun hsize => hchecked.trans ?_⟩
    refine Checked.next_eq hpartition.stands ?_ (Lexer.bounded_calls settings hsize n)
    rw [hpartition.source_eq]
    exact hsize

/-- After a string of more bytes than characters, and a line end, the call finds the right brace. -/
theorem scan_cuts_legally_behindString :
    let source : Text := ['"', 'é', '"', '\r', '\n', '}']
    let lexer := ((Lexer.ofText source {}).calls 2).2
    source.byteSize ≤ 2 ^ 32 - 2 ∧ lexer.cursor.position = 6 ∧ lexer.next? = some lexer.next := by
  intro source lexer
  have hsize : source.byteSize ≤ 2 ^ 32 - 2 := by decide
  obtain ⟨-, hcalls⟩ := scan_cuts_legally
  exact ⟨hsize, by decide +kernel, (hcalls source {} 2).2 hsize⟩

/-- Two slashes begin a comment up to the next line break. -/
theorem select_lineComment {edition : Edition} {context : Context} (hes5 : edition.includes .es5 = true)
    (tail : Text) :
    select edition context ('/' :: '/' :: tail) =
      some {
        action := .emit .comment
        lexeme := Text.restOfLine ('/' :: '/' :: tail)
        rest := (Text.splitLine ('/' :: '/' :: tail)).2 } := by
  have hopened : rulesOpenedBy '/' = commentRules ++ (regExpRules ++ operatorRules) := rfl
  rw [select_cons, hopened]
  simp [firstOf, commentRules, Rule.find?, Rule.applies, hes5, Comment.line, Matcher.toLineEnd,
    Text.restOfLine]

/-- A comment that takes a whole source has no column behind it, if it has all the characters that a column
can count. -/
theorem Lexer.next?_eq_none_of_comment {text : Text} {settings : Settings}
    (hes5 : settings.edition.includes .es5 = true) (hlimit : 0 < settings.iterationLimit)
    (hline : ∀ c ∈ '/' :: '/' :: text, isLineBreak c = false) (hlong : 2 ^ 32 ≤ text.length + 3) :
    (Lexer.ofText ('/' :: '/' :: text) settings).next? = none := by
  have hsplit : Text.splitLine ('/' :: '/' :: text) = ('/' :: '/' :: text, []) := by
    have hplain : ∀ c ∈ '/' :: '/' :: text, (!isLineBreak c) = true := by
      simpa only [Bool.not_eq_true'] using hline
    have hrun := (@Text.run_eq_iff (fun c => !isLineBreak c) _ []).2 ⟨hplain, rfl⟩
    rwa [List.append_nil] at hrun
  have hselect : select settings.edition .initial ('/' :: '/' :: text) =
      some { action := .emit .comment, lexeme := '/' :: '/' :: text, rest := [] } := by
    rw [select_lineComment hes5, Text.restOfLine, hsplit]
  have hplain : Text.terminators ('/' :: '/' :: text) = 0 := by
    refine terminators_eq_zero_iff.2 fun c hc => ?_
    have hnone := hline c hc
    simp only [isLineBreak, Bool.or_eq_false_iff] at hnone
    exact hnone.1.1
  have hcolumn : (Location.start).column.toNat = 1 := rfl
  have hafter : Checked.after .start ('/' :: '/' :: text) = none := by
    refine Checked.after_eq_none hplain ?_
    rw [hcolumn, List.length_cons, List.length_cons]
    omega
  have hbelow : ¬ settings.iterationLimit ≤ 0 := UInt64.not_le.2 hlimit
  rw [Lexer.next?_eq (Cursor.standsAfter_ofText _)]
  simp [Checked.next, Checked.step, Lexer.ofText, Cursor.ofText, Cursor.atEnd, hbelow, hselect,
    Checked.advance, hafter]

theorem Text.byteSize_replicate (n : Nat) (c : Char) :
    Text.byteSize (List.replicate n c) = n * c.utf8Size := by
  induction n with
  | zero => rw [Nat.zero_mul]; rfl
  | succ n ih => rw [List.replicate_succ, byteSize_cons, ih, Nat.succ_mul, Nat.add_comm]

/-- The first call in a source of `2 ^ 32 - 1` bytes can leave the word: the column behind the comment would be
`2 ^ 32`. -/
theorem scan_leaves_word :
    let source : Text := '/' :: '/' :: List.replicate (2 ^ 32 - 3) 'a'
    source.byteSize = 2 ^ 32 - 1 ∧ (Lexer.ofText source {}).next? = none := by
  have hslash : '/'.utf8Size = 1 := rfl
  have hletter : 'a'.utf8Size = 1 := rfl
  refine ⟨?_, Lexer.next?_eq_none_of_comment rfl (by decide) ?_ ?_⟩
  · rw [byteSize_cons, byteSize_cons, Text.byteSize_replicate, hslash, hletter]
    omega
  · intro c hc
    simp only [List.mem_cons, List.mem_replicate] at hc
    rcases hc with rfl | rfl | ⟨-, rfl⟩ <;> rfl
  · rw [List.length_replicate]
    decide

end EcmaLex
