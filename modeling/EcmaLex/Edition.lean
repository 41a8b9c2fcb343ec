/-!
# Language editions

An edition is a number. Rules of the language name the edition that introduced them and are compared
with it as numbers, so an edition nobody has published is accepted and takes the place its number
gives it. The number 7 is another name for 2016 and is never the number of an edition.
-/

namespace EcmaLex

structure Edition where
  number : UInt32
  number_ne_seven : number ≠ 7 := by decide
  deriving DecidableEq, Repr

namespace Edition

/-- The oldest supported edition. -/
def es5 : Edition := { number := 5 }

/-- The edition of templates and arrows. Both 6 and 2015 are at least this. -/
def es2015 : Edition := { number := 6 }

/-- The edition of the exponent operator. -/
def es2016 : Edition := { number := 2016 }

/-- The edition meant by a number. -/
def ofNumber (number : UInt32) : Edition :=
  if h : number = 7 then es2016 else { number, number_ne_seven := h }

instance : Inhabited Edition where
  default := es5

/-- Whether this edition includes what was introduced in `since`. -/
def includes (edition since : Edition) : Bool :=
  since.number ≤ edition.number

/-- Editions are ordered by their numbers. -/
protected def compare (a b : Edition) : Ordering :=
  compare a.number b.number

def describe (edition : Edition) : String :=
  "ES" ++ toString edition.number

/-- An edition that includes something includes what is older. -/
theorem includes_of_le {edition older newer : Edition} (h : edition.includes newer = true)
    (hle : older.number ≤ newer.number) : edition.includes older = true := by
  rw [includes, decide_eq_true_eq] at h ⊢
  exact UInt32.le_trans hle h

/-- The number of an edition means that edition. -/
theorem ofNumber_number (edition : Edition) : ofNumber edition.number = edition := by
  simp [ofNumber, edition.number_ne_seven]

end Edition

end EcmaLex
