import AtomicCss.Decimal.Binary
import AtomicCss.Text.Affix

/-!
# Reading decimal numbers

A number is an optional sign and a name for infinity or the undefined number, or digits with an
optional point and an optional exponent. The result is the double nearest to what is written.
-/

namespace AtomicCss.Decimal

def digitsValue (ds : List Char) : Nat :=
  ds.foldl (fun n c => 10 * n + (c.toNat - 48)) 0

/-- The double nearest to `n * 10 ^ exponent`. Exponents that no double can have are cut off
before any power is taken. -/
def nearest (n : Nat) (exponent : Int) : Float :=
  if n = 0 then 0.0
  else
    let size := ((Nat.toDigits 10 n).length : Int) + exponent
    if 310 < size then 1.0 / 0.0
    else if size < -330 then 0.0
    else if 0 ≤ exponent then Float.ofScientific n false exponent.toNat
    else Float.ofScientific n true (-exponent).toNat

/-- The whole text as an optionally signed run of digits. -/
def exponent? (cs : List Char) : Option Int :=
  let digits (ds : List Char) : Option Nat :=
    if !ds.isEmpty && ds.all Char.isDigit then some (digitsValue ds) else none
  match cs with
  | '-' :: ds => (digits ds).map fun n => -(n : Int)
  | '+' :: ds => (digits ds).map Int.ofNat
  | ds => (digits ds).map Int.ofNat

def unsigned? (cs : List Char) : Option Float :=
  let whole := cs.takeWhile Char.isDigit
  let rest := cs.dropWhile Char.isDigit
  let (fraction, rest) :=
    match rest with
    | '.' :: after => (after.takeWhile Char.isDigit, after.dropWhile Char.isDigit)
    | _ => ([], rest)
  if whole.isEmpty && fraction.isEmpty then none
  else
    let digits := digitsValue (whole ++ fraction)
    match rest with
    | [] => some (nearest digits (-(fraction.length : Int)))
    | 'e' :: after | 'E' :: after =>
      (exponent? after).map fun e => nearest digits (e - fraction.length)
    | _ => none

def named? (cs : List Char) : Option Float :=
  let name := Text.lower cs
  if name = "inf".toList ∨ name = "infinity".toList then some (1.0 / 0.0)
  else if name = "nan".toList then some (0.0 / 0.0)
  else none

def read? (cs : List Char) : Option Float :=
  let magnitude? (ds : List Char) : Option Float := named? ds <|> unsigned? ds
  match cs with
  | '-' :: ds => (magnitude? ds).map (- ·)
  | '+' :: ds => magnitude? ds
  | ds => magnitude? ds

end AtomicCss.Decimal
