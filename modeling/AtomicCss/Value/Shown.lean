import AtomicCss.Decimal.Shortest
import AtomicCss.Text.Printable
import AtomicCss.Value.Basic

/-!
# Values in messages

A message that refuses a value writes out how it is built.
-/

namespace AtomicCss

/-- Quotes, backslashes and characters that do not show on their own are escaped. -/
def shownChar (c : Char) : List Char :=
  if c = '"' then ['\\', '"']
  else if c = '\\' then ['\\', '\\']
  else if c = '\n' then ['\\', 'n']
  else if c = '\r' then ['\\', 'r']
  else if c = '\t' then ['\\', 't']
  else if c.toNat = 0 then ['\\', '0']
  else if Text.isExtending c || !Text.isPrintable c then
    ['\\', 'u', '\x7b'] ++ Nat.toDigits 16 c.toNat ++ ['\x7d']
  else [c]

def shownText (s : String) : String :=
  String.ofList ('"' :: (s.toList.flatMap shownChar ++ ['"']))

/-- From 1e16 on, and below 1e-4, a number is written with an exponent; otherwise it has a point. -/
def shownNumber (x : Float) : List Char :=
  match Decimal.Reading.ofFloat x with
  | .finite negative m =>
    let d := m.shortest .up
    let point : Int := Decimal.digitCount d.digits + d.exponent
    let text :=
      if m.mantissa = 0 then ['0', '.', '0']
      else if point ≤ -4 || 16 < point then d.scientific false
      else if 0 ≤ d.exponent then d.positional ++ ['.', '0']
      else d.positional
    if negative then '-' :: text else text
  | _ => Decimal.plainText x

def ReferenceKind.shown : ReferenceKind → String
  | .var => "Var"
  | .const => "Const"
  | .keyframes => "Keyframes"
  | .positionTry => "PositionTry"
  | .viewTransition => "ViewTransition"
  | .marker => "Marker"

def Scalar.shown : Scalar → String
  | .text s => "Str(" ++ shownText s ++ ")"
  | .number x => "Number(" ++ String.ofList (shownNumber x) ++ ")"
  | .ref r =>
    "Ref(TokenRef \x7b kind: " ++ r.kind.shown ++ ", namespace: " ++ shownText r.space
      ++ ", name: " ++ shownText r.name ++ " \x7d)"

def shownList (parts : List String) : String :=
  "[" ++ String.intercalate ", " parts ++ "]"

namespace Value

mutual

def shown : Value → String
  | .unset => "Null"
  | .scalar value => "Scalar(" ++ value.shown ++ ")"
  | .map entries => "Map(" ++ shownList (shownEntries entries) ++ ")"
  | .fallback values => "Fallback(" ++ shownList (values.map Scalar.shown) ++ ")"
  | .firstThatWorks values => "FirstThatWorks(" ++ shownList (values.map Scalar.shown) ++ ")"

def shownEntries : List (String × Value) → List String
  | [] => []
  | (key, value) :: rest =>
    ("(" ++ shownText key ++ ", " ++ value.shown ++ ")") :: shownEntries rest

end

end Value

end AtomicCss
