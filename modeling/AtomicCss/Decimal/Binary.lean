/-!
# Doubles as exact binary fractions

A finite double is a sign and a magnitude `mantissa * 2 ^ exponent`. Everything that writes or
rounds a number works on these two integers.
-/

namespace AtomicCss.Decimal

/-- The magnitude `mantissa * 2 ^ exponent`. -/
structure Magnitude where
  mantissa : Nat
  exponent : Int
  deriving DecidableEq, Repr

inductive Reading
  | finite (negative : Bool) (magnitude : Magnitude)
  | infinite (negative : Bool)
  | undefined
  deriving DecidableEq, Repr

/-- The place of the leading one above the 52 fraction bits. -/
def leadingOne : Nat := 4503599627370496

/-- A double's eleven exponent bits are biased by 1023, its 52 fraction bits follow a leading one
unless the exponent bits are zero. -/
def Reading.ofBits (bits : UInt64) : Reading :=
  let n := bits.toNat
  let negative := n / (2048 * leadingOne) == 1
  let biased : Nat := n / leadingOne % 2048
  let fraction : Nat := n % leadingOne
  if biased = 2047 then
    if fraction = 0 then .infinite negative else .undefined
  else if biased = 0 then .finite negative ⟨fraction, -1074⟩
  else .finite negative ⟨leadingOne + fraction, (biased : Int) - 1075⟩

def Reading.ofFloat (x : Float) : Reading :=
  .ofBits x.toBits

namespace Magnitude

/-- The magnitude as numerator and denominator of a fraction. -/
def ratio (x : Magnitude) : Nat × Nat :=
  if 0 ≤ x.exponent then (x.mantissa * Nat.pow 2 x.exponent.toNat, 1)
  else (x.mantissa, Nat.pow 2 (-x.exponent).toNat)

/-- The nearest natural number, a half going up. -/
def round (x : Magnitude) : Nat :=
  let (num, den) := x.ratio
  (2 * num + den) / (2 * den)

end Magnitude

def isFinite (x : Float) : Bool :=
  match Reading.ofFloat x with
  | .finite .. => true
  | _ => false

end AtomicCss.Decimal
