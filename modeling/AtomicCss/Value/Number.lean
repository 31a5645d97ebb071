import AtomicCss.Decimal.Shortest
import AtomicCss.Decimal.Reader

/-!
# Numbers as CSS writes them

Numbers that a program supplies are rounded to four decimal places. Numbers that are already text
keep their digits and lose what is redundant around them.
-/

namespace AtomicCss

namespace Decimal

/-- The double rounded to the nearest whole number, a half going away from zero. -/
def toNearestInteger (x : Float) : Float :=
  match Reading.ofFloat x with
  | .finite negative m =>
    let n := Float.ofScientific m.round false 0
    if negative then -n else n
  | _ => x

def roundToFourPlaces (x : Float) : Float :=
  toNearestInteger (x * 10000.0) / 10000.0

/-- From 1e15 on a double has no decimal places left to round. -/
def isLarge (x : Float) : Bool :=
  x ≥ 1e15 || x ≤ -1e15

/-- A number rounded to four decimal places, without trailing zeros and without an exponent. -/
def format (x : Float) : List Char :=
  if isLarge x then plainText x
  else
    let rounded := roundToFourPlaces x
    if rounded == 0.0 then ['0'] else plainText rounded

/-- The text without its last characters that satisfy `p`. -/
def dropEndWhile (p : Char → Bool) (cs : List Char) : List Char :=
  (cs.reverse.dropWhile p).reverse

/-- The canonical spelling of a number without an exponent: no plus sign, no zeros in front of
the whole part or behind the fraction, and no sign before zero. A number with an exponent is kept
as written. -/
def canonical (text : List Char) : List Char :=
  if text.any fun c => c == 'e' || c == 'E' then text
  else
    let (negative, digits) :=
      match text with
      | '-' :: digits => (true, digits)
      | '+' :: digits => (false, digits)
      | digits => (false, digits)
    let (whole, fraction) := (Text.splitOnce? '.' digits).getD (digits, [])
    let whole := whole.dropWhile (· == '0')
    let fraction := dropEndWhile (· == '0') fraction
    if whole.isEmpty && fraction.isEmpty then ['0']
    else
      (if negative then ['-'] else []) ++ whole
        ++ (if fraction.isEmpty then [] else '.' :: fraction)

end Decimal

end AtomicCss
