import AtomicCss.Json.Basic
import AtomicCss.Decimal.Shortest

/-!
# Numbers in JSON texts

A whole number that fits 64 bits is exact. Any other number is a 64-bit significand, of which
digits that do not fit are dropped, scaled once by a power of ten; the scaling rounds, so the last
bit may differ from the nearest double.
-/

namespace AtomicCss.Json.Number

open Decimal (digitCount)

/-- The largest significand, of 64 bits. -/
def largest : Nat := 18446744073709551615

/-- Appends digits to a significand until one does not fit. The result counts the digits that were
appended. -/
def appendDigits (significand : Nat) : List Char → Nat × Nat
  | [] => (significand, 0)
  | c :: cs =>
    let next := significand * 10 + (c.toNat - 48)
    if largest < next then (significand, 0)
    else
      let (final, count) := appendDigits next cs
      (final, count + 1)

def powerOfTen (n : Nat) : Float :=
  Float.ofScientific 1 false n

/-- Scales by a power of ten, in steps of at most 308. Nothing is returned beyond the range of
doubles. Two steps down leave zero, so four of them are enough. -/
def scale? : Nat → Float → Int → Option Float
  | 0, x, _ => some x
  | steps + 1, x, exponent =>
    if 0 ≤ exponent then
      if exponent ≤ 308 then
        let y := x * powerOfTen exponent.toNat
        if y.isInf then none else some y
      else if x == 0.0 then some x else none
    else if -308 ≤ exponent then some (x / powerOfTen (-exponent).toNat)
    else if x == 0.0 then some x
    else scale? steps (x / powerOfTen 308) (exponent + 308)

/-- The largest exponent that is taken as written, of 31 bits. -/
def largestExponent : Nat := 2147483647

def digitsValue (digits : List Char) : Nat :=
  digits.foldl (fun n c => 10 * n + (c.toNat - 48)) 0

/-- The parts of a number as written. The exponent is signed; a number without a point has no
fraction digits. -/
structure Written where
  negative : Bool
  whole : List Char
  fraction : List Char
  exponent : Option (Bool × List Char)
  deriving DecidableEq, Repr

/-- The value of a number, unless it is beyond the range of doubles. -/
def Written.value? (w : Written) : Option Number :=
  let (significand, wholeCount) := appendDigits 0 w.whole
  let dropped := w.whole.length - wholeCount
  let (significand', fractionCount) := appendDigits significand w.fraction
  let signed (x : Float) : Number := .double (if w.negative then -x else x)
  match w.exponent with
  | some (down, digits) =>
    let exponent := digitsValue digits
    if largestExponent < exponent then
      if significand' = 0 || down then some (signed 0.0) else none
    else
      let total : Int :=
        (dropped : Int) - fractionCount + (if down then -(exponent : Int) else exponent)
      (scale? 4 (Float.ofNat significand') total).map signed
  | none =>
    if dropped = 0 && w.fraction.isEmpty then
      if !w.negative then some (.whole significand)
      else if 0 < significand && significand ≤ 9223372036854775808 then some (.whole (-significand))
      else some (signed (Float.ofNat significand))
    else (scale? 4 (Float.ofNat significand') ((dropped : Int) - fractionCount)).map signed

/-- Positional up to sixteen digits before the point and from 1e-5 on, otherwise with a signed
exponent. Whole doubles keep a zero behind the point. -/
def doubleText (x : Float) : List Char :=
  match Decimal.Reading.ofFloat x with
  | .finite negative m =>
    let d := m.shortest .even
    let point : Int := digitCount d.digits + d.exponent
    let text :=
      if m.mantissa = 0 then ['0', '.', '0']
      else if 0 ≤ d.exponent && point ≤ 16 then d.positional ++ ['.', '0']
      else if -5 < point && point ≤ 16 then d.positional
      else d.scientific true
    if negative then '-' :: text else text
  | _ => ['n', 'u', 'l', 'l']

def text : Number → List Char
  | whole n => (toString n).toList
  | double x => doubleText x

end AtomicCss.Json.Number
