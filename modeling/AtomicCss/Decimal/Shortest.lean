import AtomicCss.Decimal.Binary

/-!
# The fewest digits that read back

Among the decimals that round to a given double, the ones with the fewest digits, and of those the
nearest. The decimals of `n` digits around a value lie on a grid whose step is a power of ten, and
if any point of the grid reads back, so does one of the two that enclose the value.
-/

namespace AtomicCss.Decimal

/-- The decimal `digits * 10 ^ exponent`. -/
structure Digits where
  digits : Nat
  exponent : Int
  deriving DecidableEq, Repr

/-- Which of two equally near decimals is taken. -/
inductive Tie
  | up
  | even
  deriving DecidableEq, Repr

def digitCount (n : Nat) : Nat :=
  (Nat.toDigits 10 n).length

/-- The exponent of the leading digit of `num / den`, for positive `num` and `den`. -/
def leadingExponent (num den : Nat) : Int :=
  if den ≤ num then (digitCount (num / den) : Int) - 1
  else
    let places := digitCount (den / num) - 1
    if den ≤ num * Nat.pow 10 places then -(places : Int) else -(places : Int) - 1

/-- The values that round to a magnitude, in quarters of its unit in the last place:
`lower` and `upper` are the ends of the interval, which belong to it if `closed`. -/
structure Interval where
  lower : Nat
  value : Nat
  upper : Nat
  closed : Bool

def Magnitude.interval (x : Magnitude) : Interval where
  lower :=
    if x.mantissa = leadingOne ∧ x.exponent ≠ -1074 then 4 * x.mantissa - 1
    else 4 * x.mantissa - 2
  value := 4 * x.mantissa
  upper := 4 * x.mantissa + 2
  closed := x.mantissa % 2 == 0

def Interval.contains (i : Interval) (num den : Nat) : Bool :=
  if i.closed then i.lower * den ≤ num && num ≤ i.upper * den
  else i.lower * den < num && num < i.upper * den

/-- The decimals `d` and `d + 1` on the grid of step `10 ^ k` that enclose the value, if they
read back; of two, the nearer. -/
def onGrid? (tie : Tie) (i : Interval) (unit : Int) (k : Int) : Option Digits :=
  -- a grid point `d` counts `d * num / den` quarters of the last place
  let (tenNum, tenDen) :=
    if 0 ≤ k then (Nat.pow 10 k.toNat, 1) else (1, Nat.pow 10 (-k).toNat)
  let (twoNum, twoDen) :=
    if 0 ≤ unit then (Nat.pow 2 unit.toNat, 1) else (1, Nat.pow 2 (-unit).toNat)
  let num := tenNum * twoDen
  let den := tenDen * twoNum
  let d := i.value * den / num
  let below := i.contains (d * num) den
  let above := i.contains ((d + 1) * num) den
  let gapBelow := i.value * den - d * num
  let gapAbove := (d + 1) * num - i.value * den
  let takeAbove : Bool :=
    if gapBelow = gapAbove then
      match tie with
      | .up => true
      | .even => d % 2 == 1
    else gapAbove < gapBelow
  if below && above then some ⟨if takeAbove then d + 1 else d, k⟩
  else if below then some ⟨d, k⟩
  else if above then some ⟨d + 1, k⟩
  else none

def firstGrid? (tie : Tie) (i : Interval) (unit leading : Int) : Nat → Nat → Option Digits
  | _, 0 => none
  | places, more + 1 =>
    match onGrid? tie i unit (leading - places) with
    | some d => some d
    | none => firstGrid? tie i unit leading (places + 1) more

/-- The digits of a positive magnitude. Seventeen digits always read back. -/
def Magnitude.shortest (tie : Tie) (x : Magnitude) : Digits :=
  if x.mantissa = 0 then ⟨0, 0⟩
  else
    let (num, den) := x.ratio
    match firstGrid? tie x.interval (x.exponent - 2) (leadingExponent num den) 0 17 with
    | some ⟨d, k⟩ => if d % 10 = 0 then ⟨d / 10, k + 1⟩ else ⟨d, k⟩
    | none => ⟨num / den, 0⟩

/-- The digits with a decimal point where it belongs, and no exponent. -/
def Digits.positional (d : Digits) : List Char :=
  let ds := Nat.toDigits 10 d.digits
  if 0 ≤ d.exponent then ds ++ List.replicate d.exponent.toNat '0'
  else
    let places := (-d.exponent).toNat
    if places < ds.length then
      ds.take (ds.length - places) ++ '.' :: ds.drop (ds.length - places)
    else '0' :: '.' :: (List.replicate (places - ds.length) '0' ++ ds)

/-- The digits with a decimal point behind the first, and an exponent. An exponent that is not
negative may have a plus sign. -/
def Digits.scientific (plus : Bool) (d : Digits) : List Char :=
  let ds := Nat.toDigits 10 d.digits
  let exponent : Int := (ds.length : Int) + d.exponent - 1
  let sign := if plus && 0 ≤ exponent then ['+'] else []
  let fraction := if ds.length ≤ 1 then [] else '.' :: ds.drop 1
  ds.take 1 ++ fraction ++ 'e' :: (sign ++ (toString exponent).toList)

/-- The plain text of a number: all its digits are written out and a whole number has no point. -/
def plainText (x : Float) : List Char :=
  match Reading.ofFloat x with
  | .undefined => ['N', 'a', 'N']
  | .infinite negative => if negative then ['-', 'i', 'n', 'f'] else ['i', 'n', 'f']
  | .finite negative m =>
    let text := (m.shortest .up).positional
    if negative then '-' :: text else text

end AtomicCss.Decimal
