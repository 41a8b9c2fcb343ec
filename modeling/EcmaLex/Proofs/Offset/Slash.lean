import EcmaLex.Lexeme.Comment
import EcmaLex.Lexeme.RegExp
import EcmaLex.Proofs.Offset.Basic

/-!
# What a slash opens, by byte offsets

The end of a block comment is searched in the text after its opening. A regular expression is gone
through by offsets, each found by adding the length of the character at the one before; where a class
opens, the text is cut there and the class is measured on its own.
-/

namespace EcmaLex

namespace Comment

open Matcher Text

/-- The byte offset of the first closing of a block comment. -/
def findClose? : Text → Option Nat
  | [] => none
  | '*' :: '/' :: _ => some 0
  | c :: rest => (findClose? rest).map (c.utf8Size + ·)

def blockSize : Measure := fun text =>
  if ['/', '*'].isPrefixOf text then
    some ((findClose? (text.drop 2)).map fun stop => 2 + stop + 2)
  else some none

theorem size_blockBody (offset : Nat) (text : Text) :
    (blockBody text).map (fun found => offset + byteSize found.1) =
      (findClose? text).map fun stop => offset + stop + 2 := by
  fun_induction blockBody text generalizing offset with
  | case1 => rfl
  | case2 => rfl
  | case3 c rest hopen ih =>
    rw [size_map_extend, ih, findClose?, Option.map_map, byteSize_cons, byteSize_nil]
    · congr 1
      funext stop
      simp only [Function.comp]
      omega
    · exact hopen

theorem measures_block : Measures blockSize block := by
  intro text
  unfold blockSize
  by_cases hopens : ['/', '*'].isPrefixOf text = true
  · obtain ⟨rest, rfl⟩ := List.isPrefixOf_iff_prefix.1 hopens
    have hmatch : block (['/', '*'] ++ rest) = (blockBody rest).map (extend ['/', '*']) := rfl
    have hsize := size_map_extend 0 ['/', '*'] (blockBody rest)
    have htwo : 0 + byteSize ['/', '*'] = 2 := rfl
    have hdrop : List.drop 2 (['/', '*'] ++ rest) = rest := rfl
    rw [htwo, size_blockBody] at hsize
    simp only [Nat.zero_add] at hsize
    rw [if_pos hopens, hmatch, hsize, hdrop]
  · have hmatch : block text = none := by
      unfold block
      split
      · exact absurd (by simp) hopens
      · rfl
    rw [if_neg hopens, hmatch]
    rfl

end Comment

namespace RegExp

open Matcher Text

/-- The length of a backslash at an offset and of the character it escapes. -/
def escapeSize (text : Text) (i : Nat) : Option Nat :=
  ((text.charAt? (i + 1)).filter fun c => !isLineBreak c).map fun c => 1 + c.utf8Size

theorem escapeSize_pos {text : Text} {i n : Nat} (h : escapeSize text i = some n) : 0 < n := by
  obtain ⟨c, -, rfl⟩ := Option.map_eq_some_iff.1 h
  omega

/-- The offset after the bracket that closes a class gone through up to `i`. -/
def classFrom (text : Text) (i : Nat) : Option Nat :=
  match _h : text.charAt? i with
  | none => none
  | some '\\' =>
    match _hescape : escapeSize text i with
    | some n => classFrom text (i + n)
    | none => none
  | some c =>
    if c = ']' then some (i + 1)
    else if isLineTerminator c then none
    else classFrom text (i + c.utf8Size)
termination_by text.byteSize - i
decreasing_by
  all_goals have hlt := lt_byteSize_of_charAt? _h
  · have := escapeSize_pos _hescape
    omega
  · have := c.utf8Size_pos
    omega

theorem le_of_classFrom {text : Text} {i stop : Nat} (h : classFrom text i = some stop) :
    i < stop := by
  fun_induction classFrom text i with
  | case1 => cases h
  | case2 i hchar n hescape ih =>
    have := ih h
    omega
  | case3 => cases h
  | case4 =>
    cases h
    omega
  | case5 => cases h
  | case6 i c hchar _ _ _ ih =>
    have := ih h
    omega

/-- The offset of the slash that closes an expression gone through up to `i`. -/
def slashFrom (text : Text) (i : Nat) : Option (Option Nat) :=
  match _h : text.charAt? i with
  | none => some none
  | some '\\' =>
    match _hescape : escapeSize text i with
    | some n => slashFrom text (i + n)
    | none => some none
  | some '[' =>
    match text.dropBytes? i with
    | none => none
    | some tail =>
      match _hclass : classFrom tail 1 with
      | some n => slashFrom text (i + n)
      | none => slashFrom text (i + 1)
  | some c =>
    if c = '/' then some (if 1 < i then some i else none)
    else if isLineTerminator c then some none
    else slashFrom text (i + c.utf8Size)
termination_by text.byteSize - i
decreasing_by
  all_goals have hlt := lt_byteSize_of_charAt? _h
  · have := escapeSize_pos _hescape
    omega
  · have := le_of_classFrom _hclass
    omega
  · omega
  · have := c.utf8Size_pos
    omega

def regExpSize : Measure := fun text =>
  if text.head? = some '/' then do
    match ← slashFrom text 1 with
    | some i =>
      let flags ← text.dropBytes? (i + 1)
      some (some (i + 1 + flags.runSize Char.isAlpha))
    | none => some none
  else some none

theorem charAt?_cons (left : Text) (c : Char) (right : Text) :
    charAt? (left ++ c :: right) left.byteSize = some c :=
  charAt?_append left (c :: right)

theorem classFrom_escape {text : Text} {i : Nat} (h : text.charAt? i = some '\\') :
    classFrom text i = (escapeSize text i).bind fun n => classFrom text (i + n) := by
  rw [classFrom]
  split
  · next hchar => rw [h] at hchar; cases hchar
  · split
    · next hescape => rw [hescape]; rfl
    · next hescape => rw [hescape]; rfl
  · next hne hchar =>
    rw [h] at hchar
    exact absurd (Option.some.inj hchar).symm hne

theorem classFrom_char {text : Text} {i : Nat} {c : Char} (h : text.charAt? i = some c)
    (hc : c ≠ '\\') :
    classFrom text i =
      if c = ']' then some (i + 1)
      else if isLineTerminator c then none
      else classFrom text (i + c.utf8Size) := by
  rw [classFrom]
  split
  · next hchar => rw [h] at hchar; cases hchar
  · next hchar =>
    rw [h] at hchar
    exact absurd (Option.some.inj hchar) hc
  · next hchar =>
    rw [h] at hchar
    rw [Option.some.inj hchar]

theorem slashFrom_escape {text : Text} {i : Nat} (h : text.charAt? i = some '\\') :
    slashFrom text i =
      match escapeSize text i with
      | some n => slashFrom text (i + n)
      | none => some none := by
  rw [slashFrom]
  split
  · next hchar => rw [h] at hchar; cases hchar
  · split
    · next hescape => rw [hescape]
    · next hescape => rw [hescape]
  · next hchar => rw [h] at hchar; cases hchar
  · next hne _ hchar =>
    rw [h] at hchar
    exact absurd (Option.some.inj hchar).symm hne

theorem slashFrom_bracket (left right : Text) :
    slashFrom (left ++ '[' :: right) left.byteSize =
      match classFrom ('[' :: right) 1 with
      | some n => slashFrom (left ++ '[' :: right) (left.byteSize + n)
      | none => slashFrom (left ++ '[' :: right) (left.byteSize + 1) := by
  have h := charAt?_cons left '[' right
  rw [slashFrom]
  split
  · next hchar => rw [h] at hchar; cases hchar
  · next hchar => rw [h] at hchar; cases hchar
  · simp only [dropBytes?_append]
    split
    · next hclass => rw [hclass]
    · next hclass => rw [hclass]
  · next hne hchar =>
    rw [h] at hchar
    exact absurd (Option.some.inj hchar).symm hne

theorem slashFrom_char {text : Text} {i : Nat} {c : Char} (h : text.charAt? i = some c)
    (hescape : c ≠ '\\') (hbracket : c ≠ '[') :
    slashFrom text i =
      if c = '/' then some (if 1 < i then some i else none)
      else if isLineTerminator c then some none
      else slashFrom text (i + c.utf8Size) := by
  rw [slashFrom]
  split
  · next hchar => rw [h] at hchar; cases hchar
  · next hchar =>
    rw [h] at hchar
    exact absurd (Option.some.inj hchar) hescape
  · next hchar =>
    rw [h] at hchar
    exact absurd (Option.some.inj hchar) hbracket
  · next hchar =>
    rw [h] at hchar
    rw [Option.some.inj hchar]

theorem escapeSize_append (left right : Text) :
    escapeSize (left ++ '\\' :: right) left.byteSize =
      (right.head?.filter fun c => !isLineBreak c).map fun c => 1 + c.utf8Size := by
  have h := charAt?_append (left ++ ['\\']) right
  have hsize : byteSize (left ++ ['\\']) = left.byteSize + 1 := byteSize_append left _
  rw [hsize, List.append_assoc, List.singleton_append] at h
  rw [escapeSize, h]

/-- A backslash at an offset and a character that is no line break take as many bytes as two. -/
theorem escapeSize_pair (left : Text) {c : Char} (right : Text) (hc : isLineBreak c = false) :
    escapeSize (left ++ '\\' :: c :: right) left.byteSize = some (byteSize ['\\', c]) := by
  rw [escapeSize_append, List.head?_cons, Option.filter_some, hc]
  rfl

theorem escapeSize_lineBreak (left : Text) {c : Char} (right : Text) (hc : isLineBreak c = true) :
    escapeSize (left ++ '\\' :: c :: right) left.byteSize = none := by
  rw [escapeSize_append, List.head?_cons, Option.filter_some, hc]
  rfl

/-- Where the walk goes over what is read, it finds later what it finds from there. -/
theorem classFrom_of_later {left rest : Text} (read : Text)
    (hwalk : classFrom (left ++ (read ++ rest)) left.byteSize =
      classFrom (left ++ (read ++ rest)) (left.byteSize + read.byteSize))
    (hlater : classFrom ((left ++ read) ++ rest) (byteSize (left ++ read)) =
      (classBody rest).map fun found => byteSize (left ++ read) + byteSize found.1) :
    classFrom (left ++ (read ++ rest)) left.byteSize =
      ((classBody rest).map (extend read)).map fun found => left.byteSize + byteSize found.1 := by
  rw [hwalk, ← byteSize_append, ← List.append_assoc, hlater, size_map_extend, byteSize_append]

theorem classFrom_append (left right : Text) :
    classFrom (left ++ right) left.byteSize =
      (classBody right).map fun found => left.byteSize + byteSize found.1 := by
  fun_induction classBody right generalizing left with
  | case1 =>
    have h := charAt?_append left []
    rw [classFrom]
    split
    · rfl
    · next hchar => rw [h] at hchar; cases hchar
    · next hchar => rw [h] at hchar; cases hchar
  | case2 => rw [classFrom_escape (charAt?_cons left _ _), escapeSize_append]; rfl
  | case3 c rest hline =>
    rw [classFrom_escape (charAt?_cons left _ _), escapeSize_lineBreak left rest hline]
    rfl
  | case4 c rest hline ih =>
    apply classFrom_of_later ['\\', c] _ (ih _)
    rw [List.cons_append, List.cons_append, List.nil_append,
      classFrom_escape (charAt?_cons left _ _), escapeSize_pair left rest (by simpa using hline)]
    rfl
  | case5 rest _ _ => rw [classFrom_char (charAt?_cons left _ _) (by decide), if_pos rfl]; rfl
  | case6 c rest hend hescape hclose hline =>
    have hc : c ≠ '\\' := not_escape hend hescape
    rw [classFrom_char (charAt?_cons left _ _) hc, if_neg hclose, if_pos hline]
    rfl
  | case7 c rest hend hescape hclose hline ih =>
    have hc : c ≠ '\\' := not_escape hend hescape
    apply classFrom_of_later [c] _ (ih _)
    rw [List.singleton_append, classFrom_char (charAt?_cons left _ _) hc, if_neg hclose,
      if_neg hline]
    rfl

theorem slashFrom_of_later {left rest : Text} (read : Text)
    (hwalk : slashFrom (left ++ (read ++ rest)) left.byteSize =
      slashFrom (left ++ (read ++ rest)) (left.byteSize + read.byteSize))
    (hlater : (slashFrom ((left ++ read) ++ rest) (byteSize (left ++ read))).map
        (Option.map (· + 1)) =
      some ((body rest).map fun found => byteSize (left ++ read) + byteSize found.1)) :
    (slashFrom (left ++ (read ++ rest)) left.byteSize).map (Option.map (· + 1)) =
      some (((body rest).map (extend read)).map fun found => left.byteSize + byteSize found.1) := by
  rw [hwalk, ← byteSize_append, ← List.append_assoc, hlater, size_map_extend, byteSize_append]

theorem one_lt_byteSize_append {left : Text} (hleft : 0 < left.byteSize) (c : Char) (read : Text) :
    1 < byteSize (left ++ c :: read) := by
  have hpos := byteSize_cons_pos c read
  rw [byteSize_append]
  omega

/-- From between two characters the closing slash is found that the reader finds, if no slash stands
right behind the opening one. -/
theorem slashFrom_append (left right : Text) (hleft : 0 < left.byteSize)
    (hbody : 1 < left.byteSize ∨ right.head? ≠ some '/') :
    (slashFrom (left ++ right) left.byteSize).map (Option.map (· + 1)) =
      some ((body right).map fun found => left.byteSize + byteSize found.1) := by
  fun_induction body right generalizing left with
  | case1 =>
    have h := charAt?_append left []
    rw [slashFrom]
    split
    · rfl
    · next hchar => rw [h] at hchar; cases hchar
    · next hchar => rw [h] at hchar; cases hchar
    · next hchar => rw [h] at hchar; cases hchar
  | case2 => rw [slashFrom_escape (charAt?_cons left _ _), escapeSize_append]; rfl
  | case3 c rest hline =>
    rw [slashFrom_escape (charAt?_cons left _ _), escapeSize_lineBreak left rest hline]
    rfl
  | case4 c rest hline ih =>
    have hread := one_lt_byteSize_append hleft '\\' [c]
    have hpos : 0 < byteSize (left ++ ['\\', c]) := by omega
    apply slashFrom_of_later ['\\', c] _ (ih _ hpos (.inl hread))
    rw [List.cons_append, List.cons_append, List.nil_append,
      slashFrom_escape (charAt?_cons left _ _), escapeSize_pair left rest (by simpa using hline)]
  | case5 rest members after hclass ih =>
    have hsize := classFrom_append ['['] rest
    have hone : byteSize ['['] = 1 := rfl
    obtain ⟨-, rfl⟩ := lawful_classBody hclass
    have hread := one_lt_byteSize_append hleft '[' members
    have hpos : 0 < byteSize (left ++ '[' :: members) := by omega
    rw [hclass, Option.map_some, hone, List.singleton_append] at hsize
    apply slashFrom_of_later ('[' :: members) _ (ih _ hpos (.inl hread))
    rw [List.cons_append, slashFrom_bracket, hsize]
    rfl
  | case6 rest hclass ih =>
    have hsize := classFrom_append ['['] rest
    have hone : byteSize ['['] = 1 := rfl
    have hread := one_lt_byteSize_append hleft '[' []
    have hpos : 0 < byteSize (left ++ ['[']) := by omega
    rw [hclass, Option.map_none, hone, List.singleton_append] at hsize
    apply slashFrom_of_later ['['] _ (ih _ hpos (.inl hread))
    rw [List.singleton_append, slashFrom_bracket, hsize]
    rfl
  | case7 rest =>
    have hslash : 1 < left.byteSize := by
      rcases hbody with h | h
      · exact h
      · exact absurd rfl h
    rw [slashFrom_char (charAt?_cons left _ _) (by decide) (by decide), if_pos rfl, if_pos hslash]
    rfl
  | case8 c rest hend hescape hbracket hslash hline =>
    have hc : c ≠ '\\' := not_escape hend hescape
    rw [slashFrom_char (charAt?_cons left _ _) hc hbracket, if_neg hslash, if_pos hline]
    rfl
  | case9 c rest hend hescape hbracket hslash hline ih =>
    have hc : c ≠ '\\' := not_escape hend hescape
    have hread := one_lt_byteSize_append hleft c []
    have hpos : 0 < byteSize (left ++ [c]) := by omega
    apply slashFrom_of_later [c] _ (ih _ hpos (.inl hread))
    rw [List.singleton_append, slashFrom_char (charAt?_cons left _ _) hc hbracket, if_neg hslash,
      if_neg hline]
    rfl

theorem size_regExp {rest lexeme after : Text} (h : body rest = some (lexeme, after))
    (hempty : rest.head? ≠ some '/') :
    (regExp ('/' :: rest)).map (fun found => byteSize found.1) =
      some (1 + byteSize lexeme + after.runSize Char.isAlpha) := by
  have hone : '/'.utf8Size = 1 := rfl
  rw [regExp_of_head hempty, h, Option.map_some, Option.map_some, runSize_eq]
  simp only [extend, Text.run, byteSize_append, byteSize_cons, hone]

theorem measures_regExp : Measures regExpSize regExp := by
  intro text
  unfold regExpSize
  by_cases hhead : text.head? = some '/'
  · obtain ⟨rest, rfl⟩ := List.head?_eq_some_iff.1 hhead
    have hone : byteSize ['/'] = 1 := rfl
    rw [if_pos hhead]
    by_cases hempty : rest.head? = some '/'
    · obtain ⟨rest, rfl⟩ := List.head?_eq_some_iff.1 hempty
      have hwalk := slashFrom_char (charAt?_cons ['/'] '/' rest) (by decide) (by decide)
      rw [if_pos rfl, if_neg (by decide), hone, List.singleton_append] at hwalk
      rw [hwalk]
      rfl
    · have hwalk := slashFrom_append ['/'] rest (by decide) (.inr hempty)
      rw [hone, List.singleton_append] at hwalk
      cases hbody : body rest with
      | none =>
        rw [hbody] at hwalk
        obtain ⟨found, hfound, hnone⟩ := Option.map_eq_some_iff.1 hwalk
        rw [hfound, Option.map_eq_none_iff.1 hnone, regExp_of_head hempty, hbody]
        rfl
      | some found =>
        obtain ⟨lexeme, after⟩ := found
        rw [hbody] at hwalk
        obtain ⟨found, hfound, hsome⟩ := Option.map_eq_some_iff.1 hwalk
        obtain ⟨i, rfl, hi⟩ := Option.map_eq_some_iff.1 hsome
        have hcut := dropBytes?_append ('/' :: lexeme) after
        have hsize : 1 + byteSize lexeme = i + 1 := hi.symm
        have hcons : byteSize ('/' :: lexeme) = i + 1 := hsize
        rw [hcons, List.cons_append, append_of_body hbody] at hcut
        rw [hfound, size_regExp hbody hempty, hsize]
        simp only [bind, Option.bind_some, hcut]
  · rw [if_neg hhead, regExp_of_other hhead]
    rfl

end RegExp

end EcmaLex
