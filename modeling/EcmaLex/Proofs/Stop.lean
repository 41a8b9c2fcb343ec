import EcmaLex.Proofs.Nesting
import EcmaLex.Proofs.Offset.Quoted

/-!
# Where a piece of a template ends

A piece is a row of units: a backslash with the one character after it, or a single character. It ends at
the first unit that is a backquote, or a dollar with a left brace for its next unit. The walk over the bytes
comes to the offset of just that unit, and which rule answers where a piece stands depends on nothing
else: `pieces_read`.
-/

namespace EcmaLex

open Matcher

namespace Template

open Text

/-- The units of a text. A backslash with nothing to escape is a unit of its own. -/
def units : Text → List Text
  | [] => []
  | '\\' :: c :: rest => ['\\', c] :: units rest
  | c :: rest => [c] :: units rest

/-- Whether the unit of an index ends a piece in the given way. -/
def StopsAt (row : List Text) (k : Nat) : Stop → Prop
  | .closing => row[k]? = some [backquote]
  | .interpolation => row[k]? = some ['$'] ∧ row[k + 1]? = some ['{']

instance (row : List Text) (k : Nat) : (stop : Stop) → Decidable (StopsAt row k stop)
  | .closing => inferInstanceAs (Decidable (row[k]? = some [backquote]))
  | .interpolation => inferInstanceAs (Decidable (row[k]? = some ['$'] ∧ row[k + 1]? = some ['{']))

/-- The unit of an index ends a piece in the given way, and no unit before it ends it in any way. -/
structure FirstStop (row : List Text) (stop : Stop) (k : Nat) : Prop where
  here : StopsAt row k stop
  before : ∀ i < k, ∀ other, ¬ StopsAt row i other

theorem units_char {c : Char} (hc : c ≠ '\\') (rest : Text) : units (c :: rest) = [c] :: units rest := by
  rw [units]
  exact fun _ _ h _ => hc h

variable {row : List Text} {unit : Text} {stop : Stop} {k : Nat}

theorem stopsAt_succ : StopsAt (unit :: row) (k + 1) stop ↔ StopsAt row k stop := by
  cases stop <;> simp [StopsAt]

theorem FirstStop.unique {other : Stop} {i : Nat} (h : FirstStop row stop k)
    (hother : FirstStop row other i) : stop = other ∧ k = i := by
  obtain hlt | rfl | hgt := Nat.lt_trichotomy k i
  · exact absurd h.here (hother.before k hlt stop)
  · refine ⟨?_, rfl⟩
    -- One unit cannot be a backquote and a dollar.
    have hhere := h.here
    have hthere := hother.here
    cases stop <;> cases other <;> simp_all [StopsAt, backquote]
  · exact absurd hother.here (h.before i hgt other)

theorem exists_firstStop (h : StopsAt row k stop) : ∃ other i, FirstStop row other i := by
  induction k using Nat.strongRecOn generalizing stop with
  | _ k ih =>
    by_cases hbefore : ∃ i < k, ∃ other, StopsAt row i other
    · obtain ⟨i, hlt, other, hother⟩ := hbefore
      exact ih i hlt hother
    · exact ⟨stop, k, h, fun i hi other hother => hbefore ⟨i, hi, other, hother⟩⟩

/-- A piece with these units ends in the given way, and with what ends it it takes so many bytes. -/
def EndsAfter (row : List Text) (stop : Stop) (size : Nat) : Prop :=
  ∃ k, FirstStop row stop k ∧ size = byteSize (row.take k).flatten + stop.size

theorem endsAfter_zero (h : StopsAt row 0 stop) {other : Stop} {size : Nat} :
    EndsAfter row other size ↔ stop = other ∧ stop.size = size := by
  have hfirst : FirstStop row stop 0 := ⟨h, fun i hi => absurd hi (Nat.not_lt_zero i)⟩
  constructor
  · rintro ⟨k, hother, rfl⟩
    obtain ⟨rfl, rfl⟩ := hfirst.unique hother
    exact ⟨rfl, by simp⟩
  · rintro ⟨rfl, rfl⟩
    exact ⟨0, hfirst, by simp⟩

theorem endsAfter_cons (hskip : ∀ other, ¬ StopsAt (unit :: row) 0 other) {size : Nat} :
    EndsAfter (unit :: row) stop size ↔
      ∃ later, EndsAfter row stop later ∧ size = unit.byteSize + later := by
  constructor
  · rintro ⟨_ | k, h, rfl⟩
    · exact absurd h.here (hskip stop)
    · refine ⟨_, ⟨k, ⟨stopsAt_succ.1 h.here, fun i hi other hother => ?_⟩, rfl⟩, ?_⟩
      · exact h.before (i + 1) (Nat.succ_lt_succ hi) other (stopsAt_succ.2 hother)
      · rw [List.take_succ_cons, List.flatten_cons, byteSize_append, Nat.add_assoc]
  · rintro ⟨later, ⟨k, h, rfl⟩, rfl⟩
    refine ⟨k + 1, ⟨stopsAt_succ.2 h.here, fun i hi other hother => ?_⟩, ?_⟩
    · cases i with
      | zero => exact hskip other hother
      | succ i => exact h.before i (Nat.lt_of_succ_lt_succ hi) other (stopsAt_succ.1 hother)
    · rw [List.take_succ_cons, List.flatten_cons, byteSize_append, Nat.add_assoc]

/-- A piece that goes on with one more unit before it is longer by this unit. -/
theorem size_extend {found : Option (Stop × Text × Text)} {size : Nat} :
    (found.map fun (stop, found) => (stop, extend unit found)).map
        (fun (stop, found) => (stop, byteSize found.1)) = some (stop, size) ↔
      ∃ later, found.map (fun (stop, found) => (stop, byteSize found.1)) = some (stop, later) ∧
        size = unit.byteSize + later := by
  rcases found with _ | ⟨other, lexeme, rest⟩
  · simp
  · simp only [Option.map_some, extend_mk, byteSize_append, Option.some.injEq, Prod.mk.injEq]
    constructor
    · rintro ⟨rfl, rfl⟩
      exact ⟨_, ⟨rfl, rfl⟩, rfl⟩
    · rintro ⟨_, ⟨rfl, rfl⟩, rfl⟩
      exact ⟨rfl, rfl⟩

theorem not_endsAfter_nil {size : Nat} : ¬ EndsAfter [] stop size := by
  rintro ⟨k, h, -⟩
  have hhere := h.here
  cases stop <;> simp [StopsAt] at hhere

theorem head?_of_units {c : Char} {text : Text} (h : (units text)[0]? = some [c]) :
    text.head? = some c := by
  fun_cases units text with
  | case1 => cases h
  | case2 => simp [units] at h
  | case3 d rest hescape =>
    rw [units] at h
    · simpa using h
    · exact hescape

theorem not_stopsAt_escape (c : Char) (stop : Stop) : ¬ StopsAt (['\\', c] :: row) 0 stop := by
  cases stop <;> simp [StopsAt]

theorem not_stopsAt_char {c : Char} {rest : Text} (hquote : c ≠ backquote)
    (hopen : c = '$' → rest.head? ≠ some '{') (stop : Stop) :
    ¬ StopsAt ([c] :: units rest) 0 stop := by
  cases stop with
  | closing => simpa [StopsAt] using hquote
  | interpolation =>
    rintro ⟨hdollar, hbrace⟩
    exact hopen (by simpa using hdollar) (head?_of_units hbrace)

/-- Reading a piece finds the first unit that ends it. -/
theorem size_body (text : Text) (stop : Stop) (size : Nat) :
    (body text).map (fun (stop, found) => (stop, byteSize found.1)) = some (stop, size) ↔
      EndsAfter (units text) stop size := by
  fun_induction body text generalizing size with
  | case1 => simp [units, not_endsAfter_nil]
  | case2 =>
    have hskip : ∀ other, ¬ StopsAt [['\\']] 0 other := fun other => by cases other <;> decide
    have hrow : units ['\\'] = [['\\']] := rfl
    rw [hrow, endsAfter_cons hskip]
    simp [not_endsAfter_nil]
  | case3 c rest ih =>
    rw [units, endsAfter_cons (not_stopsAt_escape c), size_extend]
    simp only [ih]
  | case4 rest =>
    have hhere : StopsAt (['$'] :: ['{'] :: units rest) 0 .interpolation := ⟨rfl, rfl⟩
    have hsize : byteSize ['$', '{'] = Stop.interpolation.size := rfl
    rw [units_char (by decide), units_char (by decide), endsAfter_zero hhere]
    simp only [Option.map_some, Option.some.injEq, Prod.mk.injEq, hsize]
  | case5 rest _ _ _ =>
    have hhere : StopsAt ([backquote] :: units rest) 0 .closing := rfl
    have hsize : byteSize [backquote] = Stop.closing.size := rfl
    rw [units_char (by decide), endsAfter_zero hhere]
    simp only [Option.map_some, Option.some.injEq, Prod.mk.injEq, hsize]
  | case6 c rest hend hescape hopen hquote ih =>
    have hne : c ≠ '\\' := not_escape hend hescape
    have hbrace : c = '$' → rest.head? ≠ some '{' := by
      rintro hdollar hhead
      obtain ⟨tail, rfl⟩ := List.head?_eq_some_iff.1 hhead
      exact hopen tail hdollar rfl
    rw [units_char hne, endsAfter_cons (not_stopsAt_char hquote hbrace), size_extend]
    simp only [ih]

theorem exists_body_iff {text : Text} {size : Nat} :
    (∃ lexeme rest, body text = some (stop, lexeme, rest) ∧ lexeme.byteSize = size) ↔
      EndsAfter (units text) stop size := by
  rw [← size_body, Option.map_eq_some_iff]
  constructor
  · rintro ⟨lexeme, rest, hbody, rfl⟩
    exact ⟨_, hbody, rfl⟩
  · rintro ⟨⟨other, lexeme, rest⟩, hbody, hfound⟩
    obtain ⟨rfl, hsize⟩ := Prod.mk.inj hfound
    exact ⟨lexeme, rest, hbody, hsize⟩

section Walk

variable {text ahead : Text} {i j : Nat}

/-- From between two characters the walk and the reader end in the same way and place. -/
theorem stopFrom_iff_body (h : text.dropBytes? i = some ahead) :
    stopFrom text i = some (stop, j) ↔
      ∃ lexeme rest, body ahead = some (stop, lexeme, rest) ∧
        j + stop.size = i + lexeme.byteSize := by
  obtain ⟨left, rfl, rfl⟩ := dropBytes?_eq_some_iff.1 h
  have hsize := stopFrom_append left ahead
  constructor
  · intro hwalk
    rw [hwalk, Option.map_some] at hsize
    obtain ⟨⟨other, lexeme, rest⟩, hbody, hfound⟩ := Option.map_eq_some_iff.1 hsize.symm
    obtain ⟨rfl, hj⟩ := Prod.mk.inj hfound
    exact ⟨lexeme, rest, hbody, hj.symm⟩
  · rintro ⟨lexeme, rest, hbody, hj⟩
    rw [hbody, Option.map_some] at hsize
    obtain ⟨⟨other, i⟩, hwalk, hfound⟩ := Option.map_eq_some_iff.1 hsize
    obtain ⟨rfl, hi⟩ := Prod.mk.inj hfound
    rw [hwalk, Nat.add_right_cancel (hi.trans hj.symm)]

theorem stopFrom_eq_none_iff_body (h : text.dropBytes? i = some ahead) :
    stopFrom text i = none ↔ body ahead = none := by
  obtain ⟨left, rfl, rfl⟩ := dropBytes?_eq_some_iff.1 h
  rw [← Option.map_eq_none_iff, stopFrom_append, Option.map_eq_none_iff]

/-- The walk comes to the offset of the first unit that ends the piece. -/
theorem stopFrom_eq_some_iff (h : text.dropBytes? i = some ahead) :
    stopFrom text i = some (stop, j) ↔
      ∃ k, FirstStop (units ahead) stop k ∧ j = i + byteSize ((units ahead).take k).flatten := by
  rw [stopFrom_iff_body h]
  constructor
  · rintro ⟨lexeme, rest, hbody, hj⟩
    obtain ⟨k, hfirst, hk⟩ := exists_body_iff.1 ⟨lexeme, rest, hbody, rfl⟩
    exact ⟨k, hfirst, by omega⟩
  · rintro ⟨k, hfirst, rfl⟩
    obtain ⟨lexeme, rest, hbody, hk⟩ := exists_body_iff.2 ⟨k, hfirst, rfl⟩
    exact ⟨lexeme, rest, hbody, by omega⟩

theorem stopFrom_eq_none_iff (h : text.dropBytes? i = some ahead) :
    stopFrom text i = none ↔ ∀ k stop, ¬ StopsAt (units ahead) k stop := by
  constructor
  · intro hnone k stop hstops
    obtain ⟨other, first, hfirst⟩ := exists_firstStop hstops
    rw [(stopFrom_eq_some_iff h).2 ⟨first, hfirst, rfl⟩] at hnone
    cases hnone
  · intro hnever
    cases hwalk : stopFrom text i with
    | none => rfl
    | some found =>
      obtain ⟨k, hfirst, -⟩ := (stopFrom_eq_some_iff h).1 hwalk
      exact absurd hfirst.here (hnever k _)

end Walk

theorem piece_ne_none_iff {opening : Char} {rest : Text} :
    piece opening stop (opening :: rest) ≠ none ↔
      ∃ lexeme after, body rest = some (stop, lexeme, after) := by
  rw [piece, if_pos rfl]
  rcases body rest with _ | ⟨other, lexeme, after⟩ <;> simp

end Template

open Template

/-- The rules for the pieces with one opening answer as the walk over the text behind the opening ends. -/
structure ReadsPiece (opening : Char) (kindOf : Stop → TokenKind) (construct : Unfinished)
    (edition : Edition) (context : Context) (text : Text) : Prop where
  /-- The rule for a way to end matches just where the walk ends in this way. -/
  matched : ∀ stop, piece opening stop text ≠ none ↔ ∃ j, stopFrom text 1 = some (stop, j)
  ended : ∀ stop j, stopFrom text 1 = some (stop, j) → ∃ lexeme rest,
    text.splitAtByte? (j + stop.size) = some (lexeme, rest) ∧
      select edition context text = some { action := .emit (kindOf stop), lexeme, rest }
  unended : stopFrom text 1 = none →
    select edition context text =
      some { action := .fail (.unfinished construct)
             lexeme := text.takeWhile fun c => !isLineBreak c
             rest := text.dropWhile fun c => !isLineBreak c }

variable {edition : Edition} {context : Context}

theorem readsPiece_of_select (guard : Context → Bool) {opening : Char} {kindOf : Stop → TokenKind}
    {construct : Unfinished} (hopening : opening.utf8Size = 1)
    (happlies : (edition.includes .es2015 && guard context) = true) {rest : Text}
    (hselect : select edition context (opening :: rest) =
      firstOf (pieceRules guard opening kindOf construct) edition context (opening :: rest)) :
    ReadsPiece opening kindOf construct edition context (opening :: rest) := by
  have hdrop : Text.dropBytes? (opening :: rest) 1 = some rest :=
    Text.dropBytes?_eq_some_iff.2 ⟨[opening], by simp [hopening], rfl⟩
  refine ⟨fun stop => ?_, fun stop j hwalk => ?_, fun hnone => ?_⟩
  · rw [piece_ne_none_iff]
    constructor
    · rintro ⟨lexeme, after, hbody⟩
      obtain ⟨k, hfirst, -⟩ := exists_body_iff.1 ⟨lexeme, after, hbody, rfl⟩
      exact ⟨_, (stopFrom_eq_some_iff hdrop).2 ⟨k, hfirst, rfl⟩⟩
    · rintro ⟨j, hwalk⟩
      obtain ⟨lexeme, after, hbody, -⟩ := (stopFrom_iff_body hdrop).1 hwalk
      exact ⟨lexeme, after, hbody⟩
  · obtain ⟨lexeme, after, hbody, hj⟩ := (stopFrom_iff_body hdrop).1 hwalk
    refine ⟨opening :: lexeme, after, Text.splitAtByte?_eq_some_iff.2 ⟨?_, ?_⟩, ?_⟩
    · rw [hj, Text.byteSize_cons, hopening]
    · rw [List.cons_append, append_of_body hbody]
    · rw [hselect, firstOf_pieceRules_body guard happlies hbody]
  · have hbody := (stopFrom_eq_none_iff_body hdrop).1 hnone
    rw [hselect, firstOf_pieceRules_open guard happlies hbody]
    rfl

/-- The walk over the bytes stops at the first unit that ends a piece, from wherever between two characters
it begins. From the edition of templates on, a piece at its opening is read as this walk ends: it is a token
up to and with what ends it, or unfinished as far as its line goes. -/
theorem pieces_read (text : Text) :
    (∀ i ahead, text.dropBytes? i = some ahead →
      (∀ stop j, stopFrom text i = some (stop, j) ↔
        ∃ k, FirstStop (units ahead) stop k ∧
          j = i + Text.byteSize ((units ahead).take k).flatten) ∧
      (stopFrom text i = none ↔ ∀ k stop, ¬ StopsAt (units ahead) k stop)) ∧
    ∀ edition context, Edition.includes edition .es2015 = true →
      (text.head? = some backquote →
        ReadsPiece backquote firstKind .template edition context text) ∧
      (text.head? = some '}' → context.nesting.atInterpolationEnd = true →
        ReadsPiece '}' laterKind .templateSection edition context text) := by
  refine ⟨fun i ahead h => ⟨fun stop j => stopFrom_eq_some_iff h, stopFrom_eq_none_iff h⟩,
    fun edition context hes2015 => ⟨fun hhead => ?_, fun hhead hend => ?_⟩⟩
  · obtain ⟨rest, rfl⟩ := List.head?_eq_some_iff.1 hhead
    have happlies : (edition.includes .es2015 && true) = true := by rw [hes2015, Bool.and_self]
    exact readsPiece_of_select (fun _ => true) rfl happlies (select_backquote edition context rest)
  · obtain ⟨rest, rfl⟩ := List.head?_eq_some_iff.1 hhead
    have happlies : (edition.includes .es2015 && context.nesting.atInterpolationEnd) = true := by
      rw [hes2015, hend, Bool.and_self]
    exact readsPiece_of_select (·.nesting.atInterpolationEnd) rfl happlies
      (select_interpolationEnd rest hes2015 hend)

/-- An escaped backquote ends no piece, and neither does a dollar with another one behind it. A backslash
with nothing to escape leaves a piece unfinished. -/
theorem pieces_read_escapes :
    let opened : Text := [backquote, '\\', backquote, 'é', '$', '$', '{', 'a']
    let resumed : Text := ['}', '$', '\\']
    let inside : Context := { Context.initial with nesting := Nesting.empty.enter }
    opened.dropBytes? 1 = some opened.tail ∧ resumed.dropBytes? 1 = some resumed.tail ∧
      Edition.es2015.includes .es2015 = true ∧ opened.head? = some backquote ∧
      resumed.head? = some '}' ∧ inside.nesting.atInterpolationEnd = true ∧
      stopFrom opened 1 = some (.interpolation, 6) ∧ stopFrom resumed 1 = none ∧
      select .es2015 .initial opened =
        some { action := .emit .templateStart, lexeme := opened.take 7, rest := ['a'] } ∧
      select .es2015 inside resumed =
        some { action := .fail (.unfinished .templateSection), lexeme := resumed, rest := [] } := by
  intro opened resumed inside
  have hopened : opened.dropBytes? 1 = some opened.tail := by decide
  have hresumed : resumed.dropBytes? 1 = some resumed.tail := by decide
  have hes2015 : Edition.es2015.includes .es2015 = true := by decide
  obtain ⟨hwalkOpened, hreadOpened⟩ := pieces_read opened
  obtain ⟨hwalkResumed, hreadResumed⟩ := pieces_read resumed
  have hstop : stopFrom opened 1 = some (.interpolation, 6) := by
    refine ((hwalkOpened 1 _ hopened).1 _ _).2 ⟨3, ⟨by decide, fun i hi other => ?_⟩, by decide⟩
    cases other <;> revert i <;> decide
  have hnone : stopFrom resumed 1 = none := by
    refine (hwalkResumed 1 _ hresumed).2.2 fun k other hstops => ?_
    cases other with
    | closing => exact absurd (List.mem_of_getElem? hstops) (by decide)
    | interpolation => exact absurd (List.mem_of_getElem? hstops.2) (by decide)
  obtain ⟨lexeme, rest, hcut, hselect⟩ :=
    ((hreadOpened .es2015 .initial hes2015).1 rfl).ended _ _ hstop
  have hlexeme : opened.splitAtByte? 8 = some (opened.take 7, ['a']) := by decide
  obtain ⟨rfl, rfl⟩ := Prod.mk.inj (Option.some.inj (hlexeme.symm.trans hcut))
  exact ⟨hopened, hresumed, hes2015, rfl, rfl, rfl, hstop, hnone, hselect,
    ((hreadResumed .es2015 inside hes2015).2 rfl rfl).unended hnone⟩

end EcmaLex
