import EcmaLex.Lexer
import EcmaLex.Proofs.Lines

/-!
# Scanning with checked arithmetic

Lines, columns, open braces and applied rules are counted in words, and an addition in a word can start over.
Here every addition and subtraction of a scan is checked, and there is no result where one leaves the word.
For texts that are not too long the checked counts are those of the scan: `after_eq`.
-/

namespace EcmaLex

namespace Checked

/-- The sum of two words, if it is one. -/
def add (a b : UInt32) : Option UInt32 :=
  if a.toNat + b.toNat < 2 ^ 32 then some (a + b) else none

def sub (a b : UInt32) : Option UInt32 :=
  if b.toNat ≤ a.toNat then some (a - b) else none

def before (rest : Text) (breaks : Text.LineBreaks) : Option Text.LineBreaks :=
  (add breaks.count 1).map fun count => { count, tail := some (breaks.tail.getD rest) }

def lineBreaks : Text → Option Text.LineBreaks
  | [] => some { count := 0, tail := none }
  | '\r' :: '\n' :: rest => (lineBreaks rest).bind (before rest)
  | c :: rest => if isLineTerminator c then (lineBreaks rest).bind (before rest) else lineBreaks rest

/-- The number of characters, where it need not be held at the greatest word. -/
def charCount (text : Text) : Option UInt32 :=
  if text.length < 2 ^ 32 then some (UInt32.ofNat text.length) else none

/-- The location after a text whose line terminators have been counted. Lines and columns are at least 1, so
that an addition to a number of characters held at the greatest word would leave the word as well. -/
def moved (location : Location) (text : Text) (breaks : Text.LineBreaks) : Option Location :=
  match breaks.tail with
  | some tail => do
    let line ← add location.line breaks.count
    let chars ← charCount tail
    let column ← add chars 1
    some { line, column }
  | none => do
    let chars ← charCount text
    let column ← add location.column chars
    some { location with column }

def after (location : Location) (text : Text) : Option Location := do
  let breaks ← lineBreaks text
  moved location text breaks

def advance (cursor : Cursor) (piece rest : Text) : Option Cursor :=
  (after cursor.location piece).map fun location =>
    { cursor with rest, position := cursor.position + piece.byteSize, location }

def openBrace (nesting : Nesting) : Option Nesting :=
  (add nesting.top 1).map fun top => { nesting with top }

def closeBrace (nesting : Nesting) : Option Nesting :=
  if nesting.top = 0 then some nesting
  else (sub nesting.top 1).map fun top => { nesting with top }

def nestingAfter (nesting : Nesting) : TokenKind → Option Nesting
  | .templateStart => some nesting.enter
  | .templateEnd => some nesting.leave
  | .leftBrace => openBrace nesting
  | .rightBrace => closeBrace nesting
  | _ => some nesting

def observe (context : Context) (kind : TokenKind) : Option Context :=
  (nestingAfter context.nesting kind).map fun nesting => { context.observe kind with nesting }

def step (lexer : Lexer) : Option (Except Fault Token × Lexer) :=
  let cursor := lexer.cursor
  let limit := lexer.settings.iterationLimit
  if limit ≤ lexer.iterations then
    some (.error (.iterationLimit limit (cursor.spanOf cursor.rest)), lexer)
  else if lexer.iterations.toNat + 1 < 2 ^ 64 then
    let counted := { lexer with iterations := lexer.iterations + 1 }
    match select lexer.settings.edition lexer.context cursor.rest with
    | none =>
      let offending := cursor.rest.take 1
      some (.error (.unrecognized cursor.rest.firstLine (cursor.spanOf offending)), counted)
    | some { action := .emit kind, lexeme, rest } => do
      let moved ← advance cursor lexeme rest
      let context ← observe lexer.context kind
      some (.ok { kind, text := lexeme, span := cursor.spanOf lexeme },
        { counted with cursor := moved, context })
    | some { action := .fail diagnosis, lexeme, .. } =>
      some (.error (diagnosis.fault lexeme (cursor.spanOf lexeme)), counted)
  else none

def next (lexer : Lexer) : Option (Option (Except Fault Token) × Lexer) :=
  if lexer.finished then some (none, lexer)
  else if lexer.cursor.atEnd then some (none, { lexer with finished := true })
  else (step lexer).map fun
    | (.ok token, after) => (some (.ok token), after)
    | (.error fault, after) => (some (.error fault), { after with finished := true })

theorem add_eq {a b : UInt32} (h : a.toNat + b.toNat < 2 ^ 32) : add a b = some (a + b) :=
  if_pos h

theorem eq_of_add {a b sum : UInt32} (h : add a b = some sum) : a + b = sum := by
  obtain ⟨-, hsum⟩ := Option.ite_none_right_eq_some.1 h
  exact Option.some.inj hsum

theorem add_comm (a b : UInt32) : add a b = add b a := by
  rw [add, add, Nat.add_comm, UInt32.add_comm]

/-- Three words are summed from either side, or from neither. -/
theorem add_bind (a b c : UInt32) :
    ((add a b).bind fun sum => add sum c) = (add b c).bind fun sum => add a sum := by
  have hab := UInt32.toNat_add a b
  have hbc := UInt32.toNat_add b c
  by_cases hfirst : a.toNat + b.toNat < 2 ^ 32
  · rw [add_eq hfirst, Option.bind_some]
    by_cases hlast : b.toNat + c.toNat < 2 ^ 32
    · rw [add_eq hlast, Option.bind_some, add, add, UInt32.add_assoc]
      refine if_congr ?_ rfl rfl
      omega
    · rw [add, if_neg (by omega), add, if_neg hlast, Option.bind_none]
  · rw [add, if_neg hfirst, Option.bind_none]
    by_cases hlast : b.toNat + c.toNat < 2 ^ 32
    · rw [add_eq hlast, Option.bind_some, add, if_neg (by omega)]
    · rw [add, if_neg hlast, Option.bind_none]

theorem zero_add (a : UInt32) : add 0 a = some a := by
  have hzero : (0 : UInt32).toNat = 0 := rfl
  have hword : a.toNat < 2 ^ 32 := a.toNat_lt
  rw [add_eq (by omega), UInt32.zero_add]

/-- Fewer terminators than a word holds are counted one by one. -/
theorem lineBreaks_eq {text : Text} (h : text.length < 2 ^ 32) :
    lineBreaks text = some text.lineBreaks := by
  have hbefore : ∀ {rest : Text}, rest.length + 1 < 2 ^ 32 →
      before rest rest.lineBreaks = some (rest.lineBreaks.before rest) := by
    intro rest hrest
    have hcount : rest.lineBreaks.count.toNat ≤ rest.length := by
      rw [Text.lineBreaks_eq, UInt32.toNat_ofNat']
      exact (Nat.mod_le _ _).trans (Text.terminators_le_length rest)
    have hone : (1 : UInt32).toNat = 1 := rfl
    rw [before, add_eq (by omega)]
    rfl
  fun_induction Text.lineBreaks text with
  | case1 => rfl
  | case2 rest ih =>
    rw [List.length_cons, List.length_cons] at h
    rw [lineBreaks, ih (by omega), Option.bind_some, hbefore (by omega)]
  | case3 c rest hpair hterminator ih =>
    rw [List.length_cons] at h
    rw [lineBreaks, if_pos hterminator, ih (by omega), Option.bind_some, hbefore h]
    exact hpair
  | case4 c rest hpair hplain ih =>
    rw [List.length_cons] at h
    rw [lineBreaks, if_neg hplain, ih (by omega)]
    exact hpair

theorem eq_of_before {rest : Text} {breaks found : Text.LineBreaks} (h : before rest breaks = some found) :
    breaks.before rest = found := by
  obtain ⟨count, hadd, rfl⟩ := Option.map_eq_some_iff.1 h
  rw [← eq_of_add hadd]
  rfl

/-- Terminators that are counted without leaving the word are counted right. -/
theorem eq_of_lineBreaks {text : Text} {breaks : Text.LineBreaks} (h : lineBreaks text = some breaks) :
    text.lineBreaks = breaks := by
  fun_induction lineBreaks text generalizing breaks with
  | case1 => exact Option.some.inj h
  | case2 rest ih =>
    obtain ⟨later, hlater, hbefore⟩ := Option.bind_eq_some_iff.1 h
    rw [Text.lineBreaks, ih hlater]
    exact eq_of_before hbefore
  | case3 c rest hpair hterminator ih =>
    obtain ⟨later, hlater, hbefore⟩ := Option.bind_eq_some_iff.1 h
    rw [Text.lineBreaks, if_pos hterminator, ih hlater]
    · exact eq_of_before hbefore
    · exact hpair
  | case4 c rest hpair hplain ih =>
    rw [Text.lineBreaks, if_neg hplain]
    · exact ih h
    · exact hpair

theorem charCount_eq {text : Text} (h : text.length < 2 ^ 32) : charCount text = some text.charCount := by
  have hsize : UInt32.size = 4294967296 := rfl
  rw [charCount, if_pos h, Text.charCount, Nat.min_eq_left (by omega)]

theorem after_eq {location : Location} {text : Text} (hsize : text.length + 1 < 2 ^ 32)
    (hline : location.line.toNat + text.length < 2 ^ 32)
    (hcolumn : location.column.toNat + text.length < 2 ^ 32) :
    after location text = some (location.after text) := by
  have hone : (1 : UInt32).toNat = 1 := rfl
  have hlines := Text.terminators_le_length text
  have hlast := Text.length_lastLine_le text
  simp only [after, Location.after, lineBreaks_eq (Nat.lt_of_succ_lt hsize), bind, Option.bind_some,
    Text.lineBreaks_eq]
  by_cases hzero : text.terminators = 0
  · have hchars := @Text.toNat_charCount text (by omega)
    simp only [if_pos hzero, moved, charCount_eq (Nat.lt_of_succ_lt hsize), bind, Option.bind_some]
    rw [add_eq (by omega)]
    rfl
  · have hchars := @Text.toNat_charCount text.lastLine (by omega)
    have hcount : (UInt32.ofNat text.terminators).toNat ≤ text.terminators := by
      rw [UInt32.toNat_ofNat']
      exact Nat.mod_le _ _
    simp only [if_neg hzero, moved, @charCount_eq text.lastLine (by omega), bind, Option.bind_some]
    rw [add_eq (by omega), add_eq (by omega)]
    rfl

/-- No column comes after a line that has all the characters that a column can count. -/
theorem after_eq_none {location : Location} {text : Text} (hplain : text.terminators = 0)
    (hlong : 2 ^ 32 ≤ location.column.toNat + text.length) : after location text = none := by
  unfold after
  cases hbreaks : lineBreaks text with
  | none => rfl
  | some breaks =>
    have htail : breaks.tail = none := by
      rw [← eq_of_lineBreaks hbreaks, Text.lineBreaks_eq]
      exact if_pos hplain
    have hcolumn : (charCount text).bind (add location.column) = none := by
      unfold charCount
      split
      · next hlength =>
        rw [Option.bind_some, add, UInt32.toNat_ofNat_of_lt' hlength, if_neg (by omega)]
      · rfl
    simp only [bind, Option.bind_some, moved, htail]
    rw [← Option.bind_assoc, hcolumn]
    rfl

end Checked

end EcmaLex
