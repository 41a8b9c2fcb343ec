import EcmaLex.Lexeme.Basic
import EcmaLex.Text.Ascii

/-!
# Reading by byte offsets

A text can also be read by offsets: looking at single bytes, taking the character at an offset, and
cutting the text there. A cut must fall between two characters, and one that does not is no result
at all. A `Measure` reads the start of a text in this way, and `Measures` says that it makes no such
cut, whatever the text, and finds the length of what a matcher finds.
-/

namespace EcmaLex

namespace Text

/-- The text from a byte offset on. There is none past the end or inside a character. -/
def dropBytes? (text : Text) (offset : Nat) : Option Text :=
  (text.splitAtByte? offset).map Prod.snd

/-- The text up to a byte offset. There is none past the end or inside a character. -/
def takeBytes? (text : Text) (offset : Nat) : Option Text :=
  (text.splitAtByte? offset).map Prod.fst

/-- The character that begins at a byte offset. -/
def charAt? (text : Text) (offset : Nat) : Option Char :=
  (text.dropBytes? offset).bind List.head?

/-- The bytes of a text. -/
def utf8 (text : Text) : List UInt8 :=
  text.flatMap String.utf8EncodeChar

/-- Whether there is a byte at an offset and it is, taken as a character, one of `p`. -/
def byteAny (text : Text) (offset : Nat) (p : Char → Bool) : Bool :=
  text.utf8[offset]?.any fun byte => p (Char.ofNat byte.toNat)

/-- The byte offset of the first character satisfying `p`. -/
def findByte? (p : Char → Bool) : Text → Option Nat
  | [] => none
  | c :: rest => if p c then some 0 else (findByte? p rest).map (c.utf8Size + ·)

/-- The length in bytes of the longest run of characters satisfying `p` at the start. -/
def runSize (p : Char → Bool) (text : Text) : Nat :=
  (text.findByte? fun c => !p c).getD text.byteSize

theorem dropBytes?_append (left right : Text) :
    (left ++ right).dropBytes? left.byteSize = some right := by
  rw [dropBytes?, splitAtByte?_byteSize_append, Option.map_some]

theorem takeBytes?_append (left right : Text) :
    (left ++ right).takeBytes? left.byteSize = some left := by
  rw [takeBytes?, splitAtByte?_byteSize_append, Option.map_some]

theorem charAt?_append (left right : Text) :
    (left ++ right).charAt? left.byteSize = right.head? := by
  rw [charAt?, dropBytes?_append, Option.bind_some]

theorem dropBytes?_eq_some_iff {text rest : Text} {offset : Nat} :
    text.dropBytes? offset = some rest ↔ ∃ left, byteSize left = offset ∧ left ++ rest = text := by
  unfold dropBytes?
  constructor
  · intro h
    obtain ⟨⟨left, right⟩, hcut, rfl⟩ := Option.map_eq_some_iff.1 h
    obtain ⟨hsize, happend⟩ := splitAtByte?_eq_some_iff.1 hcut
    exact ⟨left, hsize.symm, happend⟩
  · intro h
    obtain ⟨left, rfl, rfl⟩ := h
    exact dropBytes?_append left rest

theorem byteSize_of_dropBytes? {text rest : Text} {offset : Nat}
    (h : text.dropBytes? offset = some rest) : offset + rest.byteSize = text.byteSize := by
  obtain ⟨left, rfl, rfl⟩ := dropBytes?_eq_some_iff.1 h
  rw [byteSize_append]

theorem charAt?_eq_some_iff {text : Text} {i : Nat} {c : Char} :
    text.charAt? i = some c ↔ ∃ left right, byteSize left = i ∧ left ++ c :: right = text := by
  unfold charAt?
  constructor
  · intro h
    obtain ⟨rest, hdrop, hhead⟩ := Option.bind_eq_some_iff.1 h
    obtain ⟨left, hsize, happend⟩ := dropBytes?_eq_some_iff.1 hdrop
    obtain ⟨right, rfl⟩ := List.head?_eq_some_iff.1 hhead
    exact ⟨left, right, hsize, happend⟩
  · intro h
    obtain ⟨left, right, rfl, rfl⟩ := h
    rw [dropBytes?_append]
    rfl

theorem lt_byteSize_of_charAt? {text : Text} {i : Nat} {c : Char} (h : text.charAt? i = some c) :
    i < text.byteSize := by
  obtain ⟨left, right, rfl, rfl⟩ := charAt?_eq_some_iff.1 h
  have hc := c.utf8Size_pos
  rw [byteSize_append, byteSize_cons]
  omega

@[simp] theorem charAt?_zero (text : Text) : text.charAt? 0 = text.head? :=
  charAt?_append [] text

theorem dropBytes?_cons (c : Char) (rest : Text) :
    dropBytes? (c :: rest) c.utf8Size = some rest := by
  have h := dropBytes?_append [c] rest
  rwa [byteSize_cons, byteSize_nil, Nat.add_zero] at h

theorem byteSize_cons_pos (c : Char) (text : Text) : 0 < byteSize (c :: text) := by
  have hc := c.utf8Size_pos
  rw [byteSize_cons]
  omega

theorem utf8Size_eq_one {c : Char} (h : c.toNat < 128) : c.utf8Size = 1 := by
  rw [Char.utf8Size_eq_one_iff, UInt32.le_iff_toNat_le]
  show c.toNat ≤ 127
  omega

/-- A code below the surrogates is the code of a character. -/
theorem toNat_ofNat {n : Nat} (h : n < 0xd800) : (Char.ofNat n).toNat = n := by
  rw [Char.ofNat, dif_pos (.inl h : n.isValidChar)]
  rfl

theorem byteSize_two {c d : Char} (hc : c.toNat < 128) (hd : d.toNat < 128) :
    byteSize [c, d] = 2 := by
  rw [byteSize_cons, byteSize_cons, byteSize_nil, utf8Size_eq_one hc, utf8Size_eq_one hd]

theorem length_utf8 (text : Text) : text.utf8.length = text.byteSize := by
  induction text with
  | nil => rfl
  | cons c text ih =>
    have happend : utf8 (c :: text) = String.utf8EncodeChar c ++ utf8 text := List.flatMap_cons
    rw [happend, List.length_append, String.length_utf8EncodeChar, ih, byteSize_cons]

theorem byteAny_append (left right : Text) (offset : Nat) (p : Char → Bool) :
    (left ++ right).byteAny (left.byteSize + offset) p = right.byteAny offset p := by
  have happend : utf8 (left ++ right) = utf8 left ++ utf8 right := List.flatMap_append
  rw [byteAny, happend, ← length_utf8, List.getElem?_append_right (Nat.le_add_right _ _),
    Nat.add_sub_cancel_left]
  rfl

@[simp] theorem byteAny_nil (offset : Nat) (p : Char → Bool) : byteAny [] offset p = false := rfl

/-- The bytes of a character of more than one byte are no characters of ASCII. -/
theorem le_of_mem_utf8EncodeChar {c : Char} (hc : 128 ≤ c.toNat) {byte : UInt8}
    (h : byte ∈ String.utf8EncodeChar c) : 128 ≤ byte.toNat := by
  have hval : 128 ≤ c.val.toNat := hc
  unfold String.utf8EncodeChar at h
  dsimp only at h
  split at h
  · omega
  · split at h
    · simp only [List.mem_cons, List.not_mem_nil, or_false] at h
      rcases h with rfl | rfl <;> simp only [UInt8.toNat_ofNat'] <;> omega
    · split at h
      · simp only [List.mem_cons, List.not_mem_nil, or_false] at h
        rcases h with rfl | rfl | rfl <;> simp only [UInt8.toNat_ofNat'] <;> omega
      · simp only [List.mem_cons, List.not_mem_nil, or_false] at h
        rcases h with rfl | rfl | rfl | rfl <;> simp only [UInt8.toNat_ofNat'] <;> omega

theorem utf8EncodeChar_of_ascii {c : Char} (hc : c.toNat < 128) :
    String.utf8EncodeChar c = [UInt8.ofNat c.toNat] := by
  unfold String.utf8EncodeChar
  have hval : c.val.toNat ≤ 127 := by
    have : c.val.toNat < 128 := hc
    omega
  exact if_pos hval

/-- Whether `p` only holds of characters of ASCII, which take one byte. -/
def Ascii (p : Char → Bool) : Prop :=
  ∀ c, p c = true → c.toNat < 128

/-- At a byte of a character outside ASCII no character of ASCII is found. -/
theorem byteAny_eq_false {p : Char → Bool} (hp : Ascii p) {c : Char} (hc : 128 ≤ c.toNat)
    (rest : Text) {offset : Nat} (hoffset : offset < c.utf8Size) :
    byteAny (c :: rest) offset p = false := by
  have happend : utf8 (c :: rest) = String.utf8EncodeChar c ++ utf8 rest := List.flatMap_cons
  have hlt : offset < (String.utf8EncodeChar c).length := by
    rw [String.length_utf8EncodeChar]
    exact hoffset
  rw [byteAny, happend, List.getElem?_append_left hlt, List.getElem?_eq_getElem hlt,
    Option.any_some]
  have hbyte := le_of_mem_utf8EncodeChar hc (List.getElem_mem hlt)
  generalize (String.utf8EncodeChar c)[offset] = byte at hbyte
  cases hfound : p (Char.ofNat byte.toNat) with
  | false => rfl
  | true =>
    have hlow := hp _ hfound
    have hlt := UInt8.toNat_lt byte
    rw [toNat_ofNat (by omega)] at hlow
    omega

theorem byteAny_zero_cons {p : Char → Bool} (hp : Ascii p) (c : Char) (rest : Text) :
    byteAny (c :: rest) 0 p = p c := by
  by_cases hc : c.toNat < 128
  · have happend : utf8 (c :: rest) = [UInt8.ofNat c.toNat] ++ utf8 rest := by
      rw [← utf8EncodeChar_of_ascii hc]
      exact List.flatMap_cons
    have hbyte : (UInt8.ofNat c.toNat).toNat = c.toNat := by
      rw [UInt8.toNat_ofNat']
      omega
    rw [byteAny, happend, List.singleton_append, List.getElem?_cons_zero, Option.any_some, hbyte,
      Char.ofNat_toNat]
  · have hhigh : 128 ≤ c.toNat := by omega
    rw [byteAny_eq_false hp hhigh rest c.utf8Size_pos]
    cases hfound : p c with
    | false => rfl
    | true => exact absurd (hp c hfound) hc

theorem byteAny_zero {p : Char → Bool} (hp : Ascii p) (text : Text) :
    text.byteAny 0 p = text.head?.any p := by
  cases text with
  | nil => rfl
  | cons c rest => exact byteAny_zero_cons hp c rest

/-- Of the bytes of a character only the first can be one of ASCII. -/
theorem byteAny_within {p : Char → Bool} (hp : Ascii p) {c : Char} (rest : Text) {offset : Nat}
    (hoffset : offset < c.utf8Size) :
    byteAny (c :: rest) offset p = (offset == 0 && p c) := by
  cases offset with
  | zero => exact byteAny_zero_cons hp c rest
  | succ offset =>
    have hc : 128 ≤ c.toNat := by
      by_cases hlow : c.toNat < 128
      · have := utf8Size_eq_one hlow
        omega
      · omega
    exact byteAny_eq_false hp hc rest hoffset

theorem byteAny_succ_cons {c : Char} (hc : c.toNat < 128) (rest : Text) (offset : Nat)
    (p : Char → Bool) : byteAny (c :: rest) (offset + 1) p = rest.byteAny offset p := by
  have h := byteAny_append [c] rest offset p
  rwa [byteSize_cons, byteSize_nil, Nat.add_zero, utf8Size_eq_one hc, Nat.add_comm] at h

theorem ascii_beq {d : Char} (hd : d.toNat < 128) : Ascii (· == d) := by
  intro c hc
  rw [eq_of_beq hc]
  exact hd

theorem ascii_isDigit : Ascii Char.isDigit := by
  intro c hc
  simp only [Char.isDigit, Bool.and_eq_true, decide_eq_true_eq] at hc
  have hle : c.val.toNat ≤ 57 := UInt32.le_iff_toNat_le.1 hc.2
  show c.val.toNat < 128
  omega

theorem ascii_isAlpha : Ascii Char.isAlpha := by
  intro c hc
  show c.val.toNat < 128
  rcases Bool.or_eq_true_iff.1 hc with hupper | hlower
  · have hrange : 'A'.val ≤ c.val ∧ c.val ≤ 'Z'.val := of_decide_eq_true hupper
    have hle : c.val.toNat ≤ 90 := UInt32.le_iff_toNat_le.1 hrange.2
    omega
  · have hrange : (decide ('a'.val ≤ c.val) && decide (c.val ≤ 'z'.val)) = true := hlower
    rw [Bool.and_eq_true, decide_eq_true_eq, decide_eq_true_eq] at hrange
    have hle : c.val.toNat ≤ 122 := UInt32.le_iff_toNat_le.1 hrange.2
    omega

theorem Ascii.or {p q : Char → Bool} (hp : Ascii p) (hq : Ascii q) :
    Ascii fun c => p c || q c := by
  intro c hc
  simp only [Bool.or_eq_true] at hc
  rcases hc with hc | hc
  · exact hp c hc
  · exact hq c hc

theorem ascii_isNameStart : Ascii isNameStart :=
  (ascii_isAlpha.or (ascii_beq (by decide))).or (ascii_beq (by decide))

theorem ascii_isNamePart : Ascii isNamePart :=
  ((ascii_isAlpha.or ascii_isDigit).or (ascii_beq (by decide))).or (ascii_beq (by decide))

theorem byteAny_at {p : Char → Bool} (hp : Ascii p) (left : Text) {c : Char} (right : Text)
    {k : Nat} (hk : k < c.utf8Size) :
    byteAny (left ++ c :: right) (left.byteSize + k) p = (k == 0 && p c) := by
  rw [byteAny_append, byteAny_within hp right hk]

theorem byteAny_after {p : Char → Bool} (hp : Ascii p) (left : Text) {c : Char}
    (hc : c.toNat < 128) (right : Text) :
    byteAny (left ++ c :: right) (left.byteSize + 1) p = right.head?.any p := by
  rw [byteAny_append, byteAny_succ_cons hc, byteAny_zero hp]

theorem byteAny_here (left : Text) (c : Char) (right : Text) {d : Char} (hd : d.toNat < 128) :
    byteAny (left ++ c :: right) left.byteSize (· == d) = (c == d) := by
  have h := byteAny_at (ascii_beq hd) left right c.utf8Size_pos
  rwa [Nat.add_zero, beq_self_eq_true, Bool.true_and] at h

theorem byteSize_lt (left : Text) (c : Char) (right : Text) :
    left.byteSize < byteSize (left ++ c :: right) := by
  have := c.utf8Size_pos
  rw [byteSize_append, byteSize_cons]
  omega

theorem runSize_eq (p : Char → Bool) (text : Text) :
    text.runSize p = byteSize (text.takeWhile p) := by
  induction text with
  | nil => rfl
  | cons c text ih =>
    unfold runSize at ih ⊢
    rw [findByte?]
    cases hc : p c with
    | false => simp [hc]
    | true =>
      simp only [Bool.not_true, Bool.false_eq_true, if_false, List.takeWhile_cons, hc, if_true,
        byteSize_cons, ← ih]
      cases findByte? (fun c => !p c) text <;> rfl

theorem dropBytes?_runSize (p : Char → Bool) (text : Text) :
    text.dropBytes? (text.runSize p) = some (text.dropWhile p) := by
  have h := dropBytes?_append (text.takeWhile p) (text.dropWhile p)
  rwa [List.takeWhile_append_dropWhile, ← runSize_eq] at h

end Text

/-- A walk that goes from each of some offsets to the next one goes through all of them. -/
theorem eq_of_steps {α : Type} {f : Nat → α} {i n : Nat}
    (h : ∀ k, k < n → f (i + k) = f (i + k + 1)) : f i = f (i + n) := by
  induction n with
  | zero => rfl
  | succ n ih =>
    have hbefore := ih fun k hk => h k (by omega)
    rw [hbefore, h n (by omega), Nat.add_assoc]

/-- A match seen from further back is longer by what has been read as well. -/
theorem size_map_extend (offset : Nat) (read : Text) (found : Option (Text × Text)) :
    (found.map (Matcher.extend read)).map (fun found => offset + found.1.byteSize) =
      found.map fun found => offset + read.byteSize + found.1.byteSize := by
  cases found with
  | none => rfl
  | some found =>
    simp only [Option.map_some, Matcher.extend, Text.byteSize_append, Nat.add_assoc]

/-- Reads the start of a text by byte offsets, and gives the length of what it finds there. Where it
cuts the text inside a character or past the end there is no result. -/
abbrev Measure := Text → Option (Option Nat)

/-- The measure never makes an illegal cut, and finds the length of what the matcher finds. -/
def Measures (measure : Measure) (matcher : Matcher) : Prop :=
  ∀ text, measure text = some ((matcher text).map fun found => found.1.byteSize)

namespace Measure

/-- What `first` finds, or else what `second` finds. -/
def orElse (first second : Measure) : Measure := fun text => do
  match ← first text with
  | some size => some (some size)
  | none => second text

/-- What `measure` finds, unless a name or a digit goes on there. -/
def standalone (measure : Measure) (goesOn : Char → Bool) : Measure := fun text => do
  let size ← measure text
  some (size.filter fun n => !(text.charAt? n).any goesOn)

/-- What `measure` finds, and one more byte if the next character satisfies `p`. -/
def abutting (measure : Measure) (p : Char → Bool) : Measure := fun text => do
  let size ← measure text
  some ((size.filter fun n => (text.charAt? n).any p).map (· + 1))

/-- The given opening and whatever follows it on its line. -/
def toLineEnd (opening : Text) : Measure := fun text =>
  if opening.isPrefixOf text then
    match text.findByte? isLineBreak with
    | some stop => (text.takeBytes? stop).map fun line => some line.byteSize
    | none => some (some text.byteSize)
  else some none

end Measure

open Matcher

theorem Measures.orElse {first second : Measure} {one other : Matcher} (hf : Measures first one)
    (hs : Measures second other) : Measures (first.orElse second) (one.orElse other) := by
  intro text
  simp only [Measure.orElse, hf text, Matcher.orElse, bind, Option.bind_some]
  cases one text with
  | none => exact hs text
  | some found => rfl

theorem Measures.standalone {measure : Measure} {matcher : Matcher} (h : Measures measure matcher)
    (lawful : matcher.Lawful) (goesOn : Char → Bool) :
    Measures (measure.standalone goesOn) (matcher.standalone goesOn) := by
  intro text
  simp only [Measure.standalone, h text, Matcher.standalone, bind, Option.bind_some]
  cases hmatch : matcher text with
  | none => rfl
  | some found =>
    obtain ⟨lexeme, rest⟩ := found
    obtain ⟨-, rfl⟩ := lawful hmatch
    simp only [Option.map_some, Option.filter_some, Text.charAt?_append]
    cases rest.head?.any goesOn <;> rfl

theorem Measures.abutting {measure : Measure} {matcher : Matcher} (h : Measures measure matcher)
    (lawful : matcher.Lawful) {p : Char → Bool} (hp : Text.Ascii p) :
    Measures (measure.abutting p) (matcher.andThen (one p)) := by
  intro text
  simp only [Measure.abutting, h text, Matcher.andThen, bind, Option.bind_some]
  cases hmatch : matcher text with
  | none => rfl
  | some found =>
    obtain ⟨lexeme, rest⟩ := found
    obtain ⟨-, rfl⟩ := lawful hmatch
    simp only [Option.map_some, Option.filter_some, Text.charAt?_append]
    cases rest with
    | nil => rfl
    | cons c rest =>
      cases hc : p c with
      | false => simp [one, hc]
      | true => simp [one, hc, extend, Text.utf8Size_eq_one (hp c hc)]

theorem measures_toLineEnd (opening : Text) :
    Measures (Measure.toLineEnd opening) (toLineEnd opening) := by
  intro text
  unfold Measure.toLineEnd Matcher.toLineEnd
  split
  · have hrun : text.runSize (fun c => !isLineBreak c) = Text.byteSize text.restOfLine :=
      Text.runSize_eq _ text
    have hcut := Text.takeBytes?_append (text.takeWhile fun c => !isLineBreak c)
      (text.dropWhile fun c => !isLineBreak c)
    rw [List.takeWhile_append_dropWhile, ← Text.runSize_eq] at hcut
    simp only [Text.runSize, Bool.not_not] at hrun hcut
    rw [Option.map_some]
    cases hfind : text.findByte? isLineBreak with
    | none =>
      simp only [hfind, Option.getD_none] at hrun
      rw [hrun]
      rfl
    | some stop =>
      simp only [hfind, Option.getD_some] at hcut
      simp only [hcut, Option.map_some]
      rfl
  · rfl

end EcmaLex
