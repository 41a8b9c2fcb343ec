/-!
# Numbers in scientific notation

A float is read as a double. The nearest double to a number is infinity from halfway between the
largest finite double and the power of two after it, the halfway point included; `overflows` decides
that exactly on natural numbers.
-/

namespace EcmaLex.Toml

/-- A number times a power of ten. -/
structure Scientific where
  mantissa : Nat
  power : Int
  deriving DecidableEq, Repr

namespace Scientific

/-- The least number that is not rounded to a finite double. Doubles have 53 significant bits, of
which the last is worth `2 ^ 971` in the largest ones. -/
def overflowBound : Nat :=
  (Nat.pow 2 54 - 1) * Nat.pow 2 970

/-- Whether the nearest double is infinity. -/
def overflows (x : Scientific) : Bool :=
  decide (overflowBound * Nat.pow 10 (-x.power).toNat ≤ x.mantissa * Nat.pow 10 x.power.toNat)

end Scientific

end EcmaLex.Toml
