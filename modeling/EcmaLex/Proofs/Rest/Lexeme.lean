import EcmaLex.Proofs.LexemeEnd
import EcmaLex.Proofs.Rest.Shortens

/-!
# Lexemes found again

The matchers for numerals and names look past their lexeme only to see that nothing goes on there. What
ends in a closing mark of its own is found again whatever stands behind it, and a lexeme that runs to the
end of its line wherever its line ends there. Only a regular expression looks further: a bracket in it
opens a class or not, and which of them is told by text that can lie behind the closing slash.
-/

namespace EcmaLex

open Matcher

namespace Name

variable {p : Char → Bool}

/-- An escape holds no gap. -/
theorem isGap_of_escaped {high low c : Char} (h : escaped? high low = some c) :
    ∀ d ∈ ['\\', 'u', '0', '0', high, low], isGap d = false := by
  obtain ⟨hhigh, hlow⟩ := isNamePart_of_escaped h
  simp only [List.forall_mem_cons, List.not_mem_nil, false_imp_iff, implies_true, and_true]
  exact ⟨by decide, by decide, by decide, by decide, isGap_eq_false hhigh, isGap_eq_false hlow⟩

/-- No escape begins with a plain character of a name. -/
theorem nameUnit_of_head (hslash : p '\\' = false) {text : Text} (h : text.head?.any p = true) :
    nameUnit p text = one p text := by
  apply nameUnit_plain
  rintro high low rest rfl
  rw [List.head?_cons, Option.any_some, hslash] at h
  cases h

theorem foundAgain_nameUnit (hslash : p '\\' = false) : (nameUnit p).FoundAgain := by
  intro unit rest other h hfound
  by_cases hescape : ∃ high low tail, unit ++ rest = '\\' :: 'u' :: '0' :: '0' :: high :: low :: tail
  · obtain ⟨high, low, tail, htext⟩ := hescape
    rw [htext] at hfound
    obtain ⟨hany, heq⟩ := Option.ite_none_right_eq_some.1 hfound
    obtain ⟨rfl, rfl⟩ := Prod.mk.inj (Option.some.inj heq)
    exact if_pos hany
  · rw [nameUnit_plain fun high low tail htext => hescape ⟨high, low, tail, htext⟩] at hfound
    have hagain := selfEnding_one p other hfound
    have hhead : (unit ++ other).head?.any p = true := by
      rw [← Bool.not_eq_false, ← one_eq_none_iff, hagain]
      exact Option.some_ne_none _
    rw [nameUnit_of_head hslash hhead, hagain]

theorem staysAbsent_nameUnit (hp : ∀ c, p c = true → isNamePart c = true) :
    (nameUnit p).StaysAbsent := by
  have hslash : p '\\' = false := by
    rw [Bool.eq_false_iff]
    exact fun h => (by cases hp _ h)
  intro text other h hnone
  by_cases hescape : ∃ high low tail, other = '\\' :: 'u' :: '0' :: '0' :: high :: low :: tail
  · obtain ⟨high, low, tail, rfl⟩ := hescape
    refine if_neg fun hany => ?_
    obtain ⟨c, hc⟩ : ∃ c, escaped? high low = some c := by
      rw [Option.any_eq_true] at hany
      exact hany.imp fun _ hc => hc.1
    obtain ⟨rest, rfl⟩ := h (isGap_of_escaped hc) ⟨tail, rfl⟩
    have hfound : nameUnit p (['\\', 'u', '0', '0', high, low] ++ rest) =
        some (['\\', 'u', '0', '0', high, low], rest) := if_pos hany
    rw [hfound] at hnone
    cases hnone
  · rw [nameUnit_plain fun high low tail heq => hescape ⟨high, low, tail, heq⟩, one_eq_none_iff]
    refine h.any_head? (fun c hc => isGap_eq_false (hp c hc)) ?_
    rw [Bool.eq_false_iff]
    intro hhead
    rw [nameUnit_of_head hslash hhead, one_eq_none_iff, hhead] at hnone
    cases hnone

theorem continuation_again {lexeme rest other : Text} (h : Shortens other rest)
    (hread : continuation (lexeme ++ rest) = (lexeme, rest)) :
    continuation (lexeme ++ other) = (lexeme, other) := by
  generalize htext : lexeme ++ rest = text at hread
  fun_induction continuation text generalizing lexeme with
  | case1 text unit tail hunit ih =>
    have happend := continuation_append tail
    generalize continuation tail = read at hread ih happend
    obtain ⟨later, after⟩ := read
    obtain ⟨rfl, rfl⟩ := Prod.mk.inj hread
    obtain rfl : later ++ after = tail := happend
    have htext := (lawful_nameUnit _ hunit).2
    rw [← htext] at hunit
    have hagain := foundAgain_nameUnit (p := isNamePart) (by decide) (h.append later) hunit
    rw [List.append_assoc, continuation_some hagain, ih rfl rfl]
    rfl
  | case2 text hnone =>
    obtain ⟨rfl, rfl⟩ := Prod.mk.inj hread
    exact continuation_none (staysAbsent_nameUnit (fun _ hc => hc) h hnone)

theorem head?_of_nameUnit (hslash : p '\\' = false) {text : Text} (h : nameUnit p text = none) :
    text.head?.any p = false := by
  rw [Bool.eq_false_iff]
  intro hhead
  rw [nameUnit_of_head hslash hhead, one_eq_none_iff, hhead] at h
  cases h

theorem head?_of_continuation (text : Text) :
    (continuation text).2.head?.any isNamePart = false := by
  fun_induction continuation text with
  | case1 text unit rest h ih => exact ih
  | case2 text h => exact head?_of_nameUnit (by decide) h

theorem identifier_eq_none_iff {text : Text} :
    identifier text = none ↔ nameUnit isNameStart text = none := by
  unfold identifier
  split
  · next h => simp [h]
  · next h => simp [h]

theorem staysAbsent_identifier : identifier.StaysAbsent := by
  intro text other h hnone
  rw [identifier_eq_none_iff] at hnone ⊢
  exact staysAbsent_nameUnit (fun _ => isNamePart_of_isNameStart) h hnone

/-- No name goes on behind an identifier. -/
theorem head?_of_identifier {text lexeme rest : Text} (h : identifier text = some (lexeme, rest)) :
    rest.head?.any isNamePart = false := by
  unfold identifier at h
  split at h
  · next unit tail _ =>
    obtain rfl : (continuation tail).2 = rest := congrArg Prod.snd (Option.some.inj h)
    exact head?_of_continuation tail
  · cases h

theorem foundAgain_identifier : identifier.FoundAgain := by
  intro lexeme rest other h hfound
  unfold identifier at hfound
  split at hfound
  · next unit tail hunit =>
    have happend := continuation_append tail
    generalize hread : continuation tail = read at hfound happend
    obtain ⟨later, after⟩ := read
    obtain ⟨rfl, rfl⟩ := Prod.mk.inj (Option.some.inj hfound)
    obtain rfl : later ++ after = tail := happend
    rw [List.append_assoc] at hunit ⊢
    have hagain := foundAgain_nameUnit (p := isNameStart) (by decide) (h.append later) hunit
    rw [identifier, hagain]
    simp only [continuation_again h hread, extend_mk]
  · cases hfound

theorem wordIn_eq_some_iff {words : List Text} {lexeme rest : Text} :
    wordIn words (lexeme ++ rest) = some (lexeme, rest) ↔
      lexeme ∈ words ∧ Text.run isNamePart (lexeme ++ rest) = (lexeme, rest) := by
  simp only [wordIn, Option.ite_none_right_eq_some, Option.some.injEq]
  refine and_congr_left fun hrun => ?_
  rw [show (lexeme ++ rest).takeWhile isNamePart = lexeme from congrArg Prod.fst hrun]

theorem foundAgain_wordIn (words : List Text) : (wordIn words).FoundAgain := by
  intro lexeme rest other h hfound
  rw [wordIn_eq_some_iff, Text.run_eq_iff] at hfound ⊢
  exact ⟨hfound.1, hfound.2.1, h.any_head? (fun _ => isGap_eq_false) hfound.2.2⟩

/-- Behind text that ends a name, it makes no difference to the words before it what follows. -/
theorem wordIn_absent {words : List Text} {lexeme rest other : Text} (h : Shortens other rest)
    (hhead : rest.head?.any isNamePart = false) (hnone : wordIn words (lexeme ++ rest) = none) :
    wordIn words (lexeme ++ other) = none := by
  have htake : ∀ {tail : Text}, tail.head?.any isNamePart = false →
      (lexeme ++ tail).takeWhile isNamePart = lexeme.takeWhile isNamePart := by
    intro tail htail
    have hnil : tail.takeWhile isNamePart = [] := by
      cases tail with
      | nil => rfl
      | cons c tail => rw [List.takeWhile_cons, show isNamePart c = false from htail]; rfl
    rw [List.takeWhile_append, hnil, List.append_nil]
    split
    · next hlength => exact ((List.takeWhile_prefix _).eq_of_length hlength).symm
    · rfl
  simp only [wordIn, ite_eq_right_iff, reduceCtorEq] at hnone ⊢
  rwa [htake (h.any_head? (fun _ => isGap_eq_false) hhead), ← htake hhead]

/-- Every word of the lists is a name. -/
theorem wordIn_eq_none {words : List Text} (hwords : (words.all (·.head?.any isNameStart)) = true)
    {text : Text} (h : identifier text = none) : wordIn words text = none := by
  rw [identifier_eq_none_iff] at h
  have hhead := head?_of_nameUnit (by decide) h
  refine if_neg fun hmem => ?_
  have hword := List.all_eq_true.1 hwords _ hmem
  cases text with
  | nil => cases hword
  | cons c text =>
    rw [List.takeWhile_cons] at hword
    split at hword
    · rw [List.head?_cons, Option.any_some] at hword hhead
      rw [hhead] at hword
      cases hword
    · cases hword

end Name

/-- Text that is not empty begins alike whatever stands behind it. -/
theorem head?_append_congr {lexeme : Text} (hne : lexeme ≠ []) (other rest : Text) :
    (lexeme ++ other).head? = (lexeme ++ rest).head? := by
  rw [List.head?_append_of_ne_nil _ hne, List.head?_append_of_ne_nil _ hne]

namespace Quotation

theorem selfEnding_body (quote : Char) : (body quote).SelfEnding := by
  intro text lexeme rest other h
  fun_induction body quote text generalizing lexeme with
  | case1 => cases h
  | case2 => cases h
  | case3 tail ih =>
    obtain ⟨found, hfound, rfl⟩ := map_extend_eq_some_iff.1 h
    show (body quote (found ++ other)).map (extend ['\\', '\r', '\n']) = _
    rw [ih hfound]
    rfl
  | case4 c tail hpair ih =>
    obtain ⟨found, hfound, rfl⟩ := map_extend_eq_some_iff.1 h
    obtain ⟨hne, rfl⟩ := lawful_body quote hfound
    have hread : body quote ('\\' :: c :: (found ++ other)) =
        (body quote (found ++ other)).map (extend ['\\', c]) := by
      rw [body]
      intro after hc hafter
      have hhead := head?_append_congr hne other rest
      rw [hafter, List.head?_cons] at hhead
      obtain ⟨later, hlater⟩ := List.head?_eq_some_iff.1 hhead.symm
      exact hpair later hc hlater
    rw [List.append_assoc, List.cons_append, List.cons_append, List.nil_append, hread, ih hfound]
    rfl
  | case5 tail hend hpair hescape =>
    obtain ⟨rfl, rfl⟩ := Prod.mk.inj (Option.some.inj h)
    exact (body_char (not_escape hend hescape)).trans (if_pos rfl)
  | case6 => cases h
  | case7 c tail hend hpair hescape hother hgo ih =>
    obtain ⟨found, hfound, rfl⟩ := map_extend_eq_some_iff.1 h
    rw [List.append_assoc, List.singleton_append, body_char (not_escape hend hescape),
      if_neg hother, if_neg hgo, ih hfound]
    rfl

theorem selfEnding_string : string.SelfEnding := by
  intro text lexeme rest other h
  cases text with
  | nil => cases h
  | cons c text =>
    obtain ⟨hquote, hbody⟩ := Option.ite_none_right_eq_some.1 h
    obtain ⟨found, hfound, rfl⟩ := map_extend_eq_some_iff.1 hbody
    rw [List.append_assoc, List.singleton_append, string, if_pos hquote,
      selfEnding_body c other hfound]
    rfl

end Quotation

namespace Comment

theorem selfEnding_blockBody : blockBody.SelfEnding := by
  intro text lexeme rest other h
  fun_induction blockBody text generalizing lexeme with
  | case1 => cases h
  | case2 tail =>
    obtain ⟨rfl, rfl⟩ := Prod.mk.inj (Option.some.inj h)
    rfl
  | case3 c tail hopen ih =>
    obtain ⟨found, hfound, rfl⟩ := map_extend_eq_some_iff.1 h
    obtain ⟨hne, rfl⟩ := lawful_blockBody hfound
    have hread : blockBody (c :: (found ++ other)) =
        (blockBody (found ++ other)).map (extend [c]) := by
      rw [blockBody]
      intro after hc hafter
      have hhead := head?_append_congr hne other rest
      rw [hafter, List.head?_cons] at hhead
      obtain ⟨later, hlater⟩ := List.head?_eq_some_iff.1 hhead.symm
      exact hopen later hc hlater
    rw [List.append_assoc, List.singleton_append, hread, ih hfound]
    rfl

theorem selfEnding_block : block.SelfEnding := by
  intro text lexeme rest other h
  unfold block at h
  split at h
  · obtain ⟨found, hfound, rfl⟩ := map_extend_eq_some_iff.1 h
    show (blockBody (found ++ other)).map (extend ['/', '*']) = _
    rw [selfEnding_blockBody other hfound]
    rfl
  · cases h

end Comment

namespace Template

theorem body_again {text lexeme rest : Text} {stop : Stop} (other : Text)
    (h : body text = some (stop, lexeme, rest)) :
    body (lexeme ++ other) = some (stop, lexeme, other) := by
  fun_induction body text generalizing lexeme with
  | case1 => cases h
  | case2 => cases h
  | case3 c tail ih =>
    obtain ⟨⟨found, piece, after⟩, hfound, heq⟩ := Option.map_eq_some_iff.1 h
    obtain ⟨rfl, rfl, rfl⟩ := by simpa only [extend_mk, Prod.mk.injEq] using heq
    have hread : body (['\\', c] ++ piece ++ other) =
        (body (piece ++ other)).map fun found => (found.1, extend ['\\', c] found.2) := rfl
    rw [hread, ih hfound]
    rfl
  | case4 tail =>
    obtain ⟨rfl, rfl, rfl⟩ := by simpa only [Option.some.injEq, Prod.mk.injEq] using h
    rfl
  | case5 tail hend hescape hopen =>
    obtain ⟨rfl, rfl, rfl⟩ := by simpa only [Option.some.injEq, Prod.mk.injEq] using h
    rfl
  | case6 c tail hend hescape hopen hquote ih =>
    obtain ⟨⟨found, piece, after⟩, hfound, heq⟩ := Option.map_eq_some_iff.1 h
    obtain ⟨rfl, rfl, rfl⟩ := by simpa only [extend_mk, Prod.mk.injEq] using heq
    obtain rfl := append_of_body hfound
    have hne : piece ≠ [] := by
      rintro rfl
      obtain ⟨c, hlast, -⟩ := endsIn_body hfound
      cases hlast
    have hmore : c = '$' → (piece ++ other).head? ≠ some '{' := by
      intro hc hhead
      rw [head?_append_congr hne other after] at hhead
      obtain ⟨later, hlater⟩ := List.head?_eq_some_iff.1 hhead
      exact hopen later hc hlater
    rw [List.append_assoc, List.singleton_append, body_char (not_escape hend hescape) hmore,
      if_neg hquote, ih hfound]
    rfl

end Template

namespace RegExp

theorem selfEnding_classBody : classBody.SelfEnding := by
  intro text lexeme rest other h
  fun_induction classBody text generalizing lexeme with
  | case1 => cases h
  | case2 => cases h
  | case3 => cases h
  | case4 c tail hline ih =>
    obtain ⟨found, hfound, rfl⟩ := map_extend_eq_some_iff.1 h
    have hread : classBody (['\\', c] ++ found ++ other) =
        (classBody (found ++ other)).map (extend ['\\', c]) := if_neg hline
    rw [hread, ih hfound]
    rfl
  | case5 tail hend hescape =>
    obtain ⟨rfl, rfl⟩ := Prod.mk.inj (Option.some.inj h)
    rfl
  | case6 => cases h
  | case7 c tail hend hescape hclose hline ih =>
    obtain ⟨found, hfound, rfl⟩ := map_extend_eq_some_iff.1 h
    rw [List.append_assoc, List.singleton_append, classBody_char (not_escape hend hescape),
      if_neg hclose, if_neg hline, ih hfound]
    rfl

/-- A bracket in the lexeme that opens no class in front of `rest` opens none in front of `other`. -/
def KeepsBrackets (lexeme rest other : Text) : Prop :=
  ∀ ⦃left : Text⦄, left <:+ lexeme → classBody (left ++ rest) = none → classBody (left ++ other) = none

theorem KeepsBrackets.of_suffix {tail lexeme rest other : Text}
    (h : KeepsBrackets lexeme rest other) (hsuffix : tail <:+ lexeme) :
    KeepsBrackets tail rest other :=
  fun _ hleft hnone => h (hleft.trans hsuffix) hnone

/-- Whether a class is closed is told behind the lexeme, or in an escape that the lexeme begins. -/
theorem keepsBrackets_of {lexeme rest other : Text}
    (hplain : classBody rest = none → classBody other = none)
    (hescape : lexeme.getLast? = some '\\' → classBody ('\\' :: rest) = none →
      classBody ('\\' :: other) = none) : KeepsBrackets lexeme rest other := by
  intro left hleft hnone
  fun_induction classBody left with
  | case1 => exact hplain hnone
  | case2 =>
    obtain ⟨before, rfl⟩ := hleft
    exact hescape (getLast?_extend rfl) hnone
  | case3 c left hline => exact if_pos hline
  | case4 c left hline ih =>
    rw [List.cons_append, List.cons_append, classBody, if_neg hline, Option.map_eq_none_iff]
      at hnone ⊢
    exact ih (((List.suffix_cons _ _).trans (List.suffix_cons _ _)).trans hleft) hnone
  | case5 left hend hopen =>
    rw [List.cons_append, classBody_char (not_escape hend hopen), if_pos rfl] at hnone
    cases hnone
  | case6 c left hend hopen hclose hline =>
    exact (classBody_char (not_escape hend hopen)).trans ((if_neg hclose).trans (if_pos hline))
  | case7 c left hend hopen hclose hline ih =>
    rw [List.cons_append, classBody_char (not_escape hend hopen), if_neg hclose, if_neg hline,
      Option.map_eq_none_iff] at hnone ⊢
    exact ih ((List.suffix_cons _ _).trans hleft) hnone

theorem body_again {text lexeme rest other : Text} (h : body text = some (lexeme, rest))
    (hbrackets : KeepsBrackets lexeme rest other) :
    body (lexeme ++ other) = some (lexeme, other) := by
  fun_induction body text generalizing lexeme with
  | case1 => cases h
  | case2 => cases h
  | case3 => cases h
  | case4 c tail hline ih =>
    obtain ⟨found, hfound, rfl⟩ := map_extend_eq_some_iff.1 h
    rw [List.append_assoc, List.cons_append, List.cons_append, List.nil_append, body, if_neg hline,
      ih hfound (hbrackets.of_suffix (List.suffix_append _ _))]
    rfl
  | case5 tail members after hclass ih =>
    obtain ⟨found, hfound, rfl⟩ := map_extend_eq_some_iff.1 h
    have hagain := selfEnding_classBody (found ++ other) hclass
    rw [List.append_assoc, List.cons_append, body_class hagain,
      ih hfound (hbrackets.of_suffix (List.suffix_append _ _))]
    rfl
  | case6 tail hclass ih =>
    obtain ⟨found, hfound, rfl⟩ := map_extend_eq_some_iff.1 h
    have hsuffix : found <:+ ['['] ++ found := List.suffix_append _ _
    rw [← append_of_body hfound] at hclass
    rw [List.append_assoc, List.singleton_append, body_bracket (hbrackets hsuffix hclass),
      ih hfound (hbrackets.of_suffix hsuffix)]
    rfl
  | case7 tail hend hescape =>
    obtain ⟨rfl, rfl⟩ := Prod.mk.inj (Option.some.inj h)
    exact (body_char (by decide) (by decide)).trans (if_pos rfl)
  | case8 => cases h
  | case9 c tail hend hescape hbracket hslash hline ih =>
    obtain ⟨found, hfound, rfl⟩ := map_extend_eq_some_iff.1 h
    rw [List.append_assoc, List.singleton_append, body_char (not_escape hend hescape) hbracket,
      if_neg hslash, if_neg hline, ih hfound (hbrackets.of_suffix (List.suffix_append _ _))]
    rfl

theorem regExp_again {text lexeme rest other : Text} (h : regExp text = some (lexeme, rest))
    (hshortens : Shortens other rest) (hbrackets : KeepsBrackets lexeme rest other) :
    regExp (lexeme ++ other) = some (lexeme, other) := by
  by_cases hhead : text.head? = some '/'
  · obtain ⟨tail, rfl⟩ := List.head?_eq_some_iff.1 hhead
    by_cases hempty : tail.head? = some '/'
    · obtain ⟨tail, rfl⟩ := List.head?_eq_some_iff.1 hempty
      cases h
    · rw [regExp_of_head hempty] at h
      obtain ⟨⟨found, after⟩, hbody, heq⟩ := Option.map_eq_some_iff.1 h
      generalize hrun : Text.run Char.isAlpha after = run at heq
      obtain ⟨flags, last⟩ := run
      obtain ⟨rfl, rfl⟩ := Prod.mk.inj heq
      obtain rfl := Text.append_of_run hrun
      rw [Text.run_eq_iff] at hrun
      have hflags : Text.run Char.isAlpha (flags ++ other) = (flags, other) :=
        Text.run_eq_iff.2 ⟨hrun.1,
          hshortens.any_head? (fun c hc => isGap_eq_false (isNamePart_of_isAlpha hc)) hrun.2⟩
      have hagain : body (found ++ (flags ++ other)) = some (found, flags ++ other) := by
        refine body_again hbody fun left hleft hnone => ?_
        obtain ⟨before, rfl⟩ := hleft
        rw [← List.append_assoc] at hnone ⊢
        exact hbrackets ⟨'/' :: before, by simp⟩ hnone
      have hne : found ≠ [] := by
        rintro rfl
        obtain ⟨c, hlast, -⟩ := endsIn_body hbody
        cases hlast
      have hfirst : (found ++ (flags ++ other)).head? ≠ some '/' := by
        rw [head?_append_congr hne (flags ++ other) (flags ++ last)]
        rwa [append_of_body hbody]
      rw [List.cons_append, List.cons_append, List.append_assoc, regExp_of_head hfirst, hagain]
      simp [hflags]
  · rw [regExp_of_other hhead] at h
    cases h

end RegExp

end EcmaLex
