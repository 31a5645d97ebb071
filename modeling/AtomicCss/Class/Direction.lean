import AtomicCss.Decimal.Reader
import AtomicCss.Text.Affix
import AtomicCss.Text.TopLevel

/-!
# Right-to-left text

A declaration that depends on the direction of the text has a twin for the other direction.
Logical keywords are also written out for left-to-right text. Physical sides are swapped only on
request.
-/

namespace AtomicCss.Direction

/-- What takes the place of some words. -/
abbrev WordMap := List (String × String)

def logicalToLtr : WordMap :=
  [("start", "left"), ("inline-start", "left"), ("end", "right"), ("inline-end", "right")]

def logicalToRtl : WordMap :=
  [("start", "right"), ("inline-start", "right"), ("end", "left"), ("inline-end", "left")]

def swappedCursors : WordMap :=
  [("e-resize", "w-resize"), ("w-resize", "e-resize"), ("ne-resize", "nw-resize"),
   ("nw-resize", "ne-resize"), ("se-resize", "sw-resize"), ("sw-resize", "se-resize"),
   ("nesw-resize", "nwse-resize"), ("nwse-resize", "nesw-resize")]

def swappedSides : WordMap :=
  [("left", "right"), ("right", "left")]

def replaced? (words : WordMap) (word : List Char) : Option (List Char) :=
  (words.lookup (String.ofList word)).map String.toList

def important : List Char := "!important".toList

/-- Replaces a value that is one word, perhaps with an `!important` behind it. -/
def mapKeyword (words : WordMap) (value : List Char) : List Char :=
  let (body, mark) :=
    match important.isSuffixOf? value with
    | some body => (body, important)
    | none => (value, [])
  match replaced? words body with
  | some word => word ++ mark
  | none => value

/-- Replaces the words of a value with commas and spaces. -/
def mapWords (words : WordMap) (value : List Char) : List Char :=
  Text.joinWith ',' <| (Text.splitTopLevel ',' value).map fun layer =>
    Text.joinWith ' ' <| (Text.splitTopLevel ' ' layer).map fun word =>
      (replaced? words word).getD word

def startsNumeric (word : List Char) : Bool :=
  match word.dropWhile (· == '-') with
  | c :: _ => c.isDigit || c == '.'
  | [] => false

/-- A length with the other sign; a zero has none. -/
def negated (length : List Char) : List Char :=
  match length with
  | '-' :: positive => positive
  | _ =>
    let number := (length.reverse.dropWhile Char.isAlpha).reverse
    match Decimal.read? number with
    | some x => if x == 0.0 then length else '-' :: length
    | none => '-' :: length

/-- Changes the first word that satisfies `p`. -/
def changeFirst (p : List Char → Bool) (change : List Char → List Char) :
    List (List Char) → List (List Char)
  | [] => []
  | word :: words => if p word then change word :: words else word :: changeFirst p change words

/-- The first length of every shadow is its horizontal offset, which changes its sign. -/
def flipShadows? (value : List Char) : Option (List Char) :=
  if value = "none".toList || Text.occursIn "var(".toList value then none
  else
    some <| Text.joinWith ',' <| (Text.splitTopLevel ',' value).map fun shadow =>
      Text.joinWith ' ' (changeFirst startsNumeric negated (Text.splitTopLevel ' ' shadow))

/-- Replaces the first occurrence of a text. -/
def replaceFirst (part new : List Char) : List Char → List Char
  | [] => []
  | c :: cs =>
    match part.isPrefixOf? (c :: cs) with
    | some rest => new ++ rest
    | none => c :: replaceFirst part new cs

/-- The property of the opposite side. -/
def flipProperty (property : String) : String :=
  let name := property.toList
  if Text.occursIn "left".toList name then
    String.ofList (replaceFirst "left".toList "right".toList name)
  else if Text.occursIn "right".toList name then
    String.ofList (replaceFirst "right".toList "left".toList name)
  else property

/-- Properties whose values list four edges. -/
def edgeProperties : List String :=
  ["margin", "padding", "inset", "border-width", "border-style", "border-color", "scroll-margin",
   "scroll-padding"]

def flipEdges (value : List Char) : List Char :=
  match Text.splitTopLevel ' ' value with
  | [top, right, bottom, left] => Text.joinWith ' ' [top, left, bottom, right]
  | _ => value

def flipCorners (value : List Char) : List Char :=
  match Text.splitTopLevel ' ' value with
  | [tl, tr, br, bl] => Text.joinWith ' ' [tr, tl, bl, br]
  | [tl, other, br] => Text.joinWith ' ' [other, tl, other, br]
  | [first, second] => Text.joinWith ' ' [second, first]
  | _ => value

def isPlaced (property : String) : Bool :=
  property == "float" || property == "clear"

def isBackground (property : String) : Bool :=
  property == "background-position" || property == "background-position-x"

/-- The value with its physical sides swapped. -/
def flipPhysical (property : String) (value : List Char) : List Char :=
  if isPlaced property || property == "text-align" then mapKeyword swappedSides value
  else if isBackground property then mapWords swappedSides value
  else if edgeProperties.contains property then flipEdges value
  else if property == "border-radius" then flipCorners value
  else value

/-- The value for left-to-right text. -/
def ltrText (property : String) (value : List Char) : List Char :=
  if isPlaced property then mapKeyword logicalToLtr value
  else if isBackground property then mapWords logicalToLtr value
  else value

def ltr (property value : String) : String :=
  String.ofList (ltrText property value.toList)

/-- The value for right-to-left text as far as it does not depend on physical sides; nothing for
shadows that cannot be flipped. -/
def flipped? (property : String) (value : List Char) : Option (List Char) :=
  if isPlaced property then some (mapKeyword logicalToRtl value)
  else if isBackground property then some (mapWords logicalToRtl value)
  else if property == "box-shadow" || property == "text-shadow" then flipShadows? value
  else if property == "cursor" then some (mapKeyword swappedCursors value)
  else some value

/-- The declaration for right-to-left text, unless it reads the same in both directions. Physical
sides of a value are swapped only if nothing else was flipped in it. -/
def rtl? (flipsPhysical : Bool) (property value : String) : Option (String × String) := do
  let text := value.toList
  let flipped ← flipped? property text
  let rtlText := if flipsPhysical && flipped == text then flipPhysical property text else flipped
  let rtlProperty := if flipsPhysical then flipProperty property else property
  if rtlProperty = property ∧ rtlText = ltrText property text then none
  else some (rtlProperty, String.ofList rtlText)

/-- The twin of a declaration with fallbacks. Values that read the same in both directions are
repeated as for left-to-right text. -/
def rtlValues? (flipsPhysical : Bool) (property : String) (values : List String) :
    Option (String × List String) :=
  if values.all fun v => (rtl? flipsPhysical property v).isNone then none
  else
    some (if flipsPhysical then flipProperty property else property,
      values.map fun v => ((rtl? flipsPhysical property v).map Prod.snd).getD (ltr property v))

end AtomicCss.Direction
