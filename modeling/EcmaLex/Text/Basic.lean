/-!
# Text

Source text is a list of characters. Offsets and lengths are counted in the bytes of its UTF-8
form, so a text can be cut after `n` bytes only where a character ends. `splitAtByte?_eq_some_iff`
says that the cut loses nothing and is unique.
-/

namespace EcmaLex

/-- Source text, or a piece of it. -/
abbrev Text := List Char

namespace Text

/-- The number of bytes a text occupies in UTF-8. -/
def byteSize : Text → Nat
  | [] => 0
  | c :: rest => c.utf8Size + byteSize rest

/-- Cuts a text after its first `n` bytes. There is no such cut past the end or inside a
character. -/
def splitAtByte? : Nat → Text → Option (Text × Text)
  | 0, text => some ([], text)
  | _ + 1, [] => none
  | n + 1, c :: rest =>
    if c.utf8Size ≤ n + 1 then
      (splitAtByte? (n + 1 - c.utf8Size) rest).map fun (left, right) => (c :: left, right)
    else none

/-- The longest run of characters satisfying `p` at the start, and what follows it. -/
def run (p : Char → Bool) (text : Text) : Text × Text :=
  (text.takeWhile p, text.dropWhile p)

/-- The characters of a UTF-8 byte sequence, if it is one. -/
def ofUtf8? (bytes : List UInt8) : Option Text :=
  (String.fromUTF8? ⟨bytes.toArray⟩).map String.toList

/-- Under a name of its own, so that no membership test has to carry the proof. -/
instance : LawfulBEq Text := inferInstance

/-- What is said of all characters of a text is decided along the text, not over all characters. -/
instance (priority := high) decidableForallMem (p : Char → Prop) [DecidablePred p] (text : Text) :
    Decidable (∀ c ∈ text, p c) :=
  List.decidableBAll p text

@[simp] theorem byteSize_nil : byteSize [] = 0 := rfl

@[simp] theorem byteSize_cons (c : Char) (text : Text) :
    byteSize (c :: text) = c.utf8Size + byteSize text := rfl

@[simp] theorem byteSize_append (left right : Text) :
    byteSize (left ++ right) = byteSize left + byteSize right := by
  induction left with
  | nil => simp
  | cons c left ih => simp [ih, Nat.add_assoc]

/-- Every character takes at least one byte. -/
theorem length_le_byteSize (text : Text) : text.length ≤ byteSize text := by
  induction text with
  | nil => simp
  | cons c text ih =>
    have hc := c.utf8Size_pos
    simp only [byteSize_cons, List.length_cons]
    omega

theorem byteSize_eq_zero_iff {text : Text} : byteSize text = 0 ↔ text = [] := by
  constructor
  · intro h
    have := length_le_byteSize text
    exact List.eq_nil_of_length_eq_zero (by omega)
  · rintro rfl
    rfl

theorem byteSize_pos {text : Text} (hne : text ≠ []) : 0 < byteSize text :=
  Nat.pos_of_ne_zero fun hzero => hne (byteSize_eq_zero_iff.1 hzero)

theorem splitAtByte?_byteSize_append (left right : Text) :
    splitAtByte? (byteSize left) (left ++ right) = some (left, right) := by
  induction left with
  | nil => cases right <;> rfl
  | cons c left ih =>
    have hc := c.utf8Size_pos
    obtain ⟨k, hk⟩ : ∃ k, byteSize (c :: left) = k + 1 :=
      ⟨byteSize (c :: left) - 1, by simp only [byteSize_cons]; omega⟩
    have hle : c.utf8Size ≤ k + 1 := by
      rw [byteSize_cons] at hk
      omega
    have hsub : k + 1 - c.utf8Size = byteSize left := by
      rw [byteSize_cons] at hk
      omega
    rw [hk, List.cons_append, splitAtByte?, if_pos hle, hsub, ih]
    rfl

theorem eq_of_splitAtByte? {n : Nat} {text left right : Text}
    (h : splitAtByte? n text = some (left, right)) : n = byteSize left ∧ left ++ right = text := by
  induction text generalizing n left right with
  | nil =>
    cases n with
    | zero =>
      simp only [splitAtByte?, Option.some.injEq, Prod.mk.injEq] at h
      obtain ⟨rfl, rfl⟩ := h
      exact ⟨rfl, rfl⟩
    | succ n => simp [splitAtByte?] at h
  | cons c text ih =>
    cases n with
    | zero =>
      simp only [splitAtByte?, Option.some.injEq, Prod.mk.injEq] at h
      obtain ⟨rfl, rfl⟩ := h
      exact ⟨rfl, rfl⟩
    | succ n =>
      rw [splitAtByte?] at h
      split at h
      · obtain ⟨⟨l, r⟩, hs, he⟩ := Option.map_eq_some_iff.1 h
        obtain ⟨hn, ht⟩ := ih hs
        simp only [Prod.mk.injEq] at he
        obtain ⟨rfl, rfl⟩ := he
        exact ⟨by simp only [byteSize_cons]; omega, by simp [ht]⟩
      · simp at h

/-- A cut succeeds exactly where a prefix of the text has that many bytes. -/
theorem splitAtByte?_eq_some_iff {n : Nat} {text left right : Text} :
    splitAtByte? n text = some (left, right) ↔ n = byteSize left ∧ left ++ right = text := by
  constructor
  · exact eq_of_splitAtByte?
  · rintro ⟨rfl, rfl⟩
    exact splitAtByte?_byteSize_append left right

@[simp] theorem run_append (p : Char → Bool) (text : Text) :
    (run p text).1 ++ (run p text).2 = text :=
  List.takeWhile_append_dropWhile

theorem append_of_run {p : Char → Bool} {text left right : Text}
    (h : run p text = (left, right)) : left ++ right = text := by
  have happend := run_append p text
  rwa [h] at happend

/-- The longest run of a class ends where no more of the class follows. -/
theorem run_eq_iff {p : Char → Bool} {lexeme rest : Text} :
    run p (lexeme ++ rest) = (lexeme, rest) ↔
      (∀ c ∈ lexeme, p c = true) ∧ rest.head?.any p = false := by
  constructor
  · intro hrun
    obtain ⟨htake, hdrop⟩ := Prod.mk.inj hrun
    refine ⟨fun c hc => ?_, ?_⟩
    · rw [← htake] at hc
      exact List.all_eq_true.1 List.all_takeWhile c hc
    · cases rest with
      | nil => rfl
      | cons c rest =>
        have hstop := List.head?_dropWhile_not p (lexeme ++ c :: rest)
        rw [hdrop] at hstop
        simpa using hstop
  · rintro ⟨hinside, hstop⟩
    have hnone : ∀ tail : Text, tail.head?.any p = false →
        tail.takeWhile p = [] ∧ tail.dropWhile p = tail := by
      intro tail htail
      cases tail with
      | nil => exact ⟨rfl, rfl⟩
      | cons c tail =>
        rw [List.head?_cons, Option.any_some] at htail
        simp [htail]
    rw [run, List.takeWhile_append_of_pos hinside, List.dropWhile_append_of_pos hinside,
      (hnone rest hstop).1, (hnone rest hstop).2, List.append_nil]

/-- No more of the class follows its longest run. -/
theorem head?_run (p : Char → Bool) (text : Text) : (run p text).2.head?.any p = false := by
  have hself : run p ((run p text).1 ++ (run p text).2) = ((run p text).1, (run p text).2) := by
    rw [run_append]
  exact (run_eq_iff.1 hself).2

end Text

end EcmaLex
