import AtomicCss.Decimal.Reader
import AtomicCss.Error
import AtomicCss.Property.Shorthand
import AtomicCss.Text.Affix
import AtomicCss.Text.TopLevel

/-!
# Expanding shorthands

Some shorthands can be split into the declarations that they stand for. A value with variables, or
with more parts than the shorthand takes, is left alone.
-/

namespace AtomicCss.Expansion

/-- How a shorthand distributes its values. -/
inductive Form
  /-- One to four values for four edges or corners. -/
  | sides
  /-- One or two values. -/
  | pair
  /-- A start and perhaps an end behind a slash. -/
  | span
  /-- A width, a style and a color in any order. -/
  | line
  /-- A line for all four edges. -/
  | border
  | flex
  deriving DecidableEq, Repr

/-- The longhands of a border: all widths, all styles, all colors. -/
def borderLonghands : List String :=
  ["width", "style", "color"].flatMap fun part =>
    ["top", "right", "bottom", "left"].map fun side => "border-" ++ side ++ "-" ++ part

/-- The shorthands that can be split, each with the longhands that it expands to. -/
def expansions : List (String × Form × List String) :=
  [("margin", .sides, ["margin-top", "margin-right", "margin-bottom", "margin-left"]),
   ("padding", .sides, ["padding-top", "padding-right", "padding-bottom", "padding-left"]),
   ("inset", .sides, ["top", "right", "bottom", "left"]),
   ("scroll-margin", .sides,
    ["scroll-margin-top", "scroll-margin-right", "scroll-margin-bottom", "scroll-margin-left"]),
   ("scroll-padding", .sides,
    ["scroll-padding-top", "scroll-padding-right", "scroll-padding-bottom",
     "scroll-padding-left"]),
   ("border-width", .sides,
    ["border-top-width", "border-right-width", "border-bottom-width", "border-left-width"]),
   ("border-style", .sides,
    ["border-top-style", "border-right-style", "border-bottom-style", "border-left-style"]),
   ("border-color", .sides,
    ["border-top-color", "border-right-color", "border-bottom-color", "border-left-color"]),
   ("border-radius", .sides,
    ["border-top-left-radius", "border-top-right-radius", "border-bottom-right-radius",
     "border-bottom-left-radius"]),
   ("margin-inline", .pair, ["margin-inline-start", "margin-inline-end"]),
   ("margin-block", .pair, ["margin-block-start", "margin-block-end"]),
   ("padding-inline", .pair, ["padding-inline-start", "padding-inline-end"]),
   ("padding-block", .pair, ["padding-block-start", "padding-block-end"]),
   ("inset-inline", .pair, ["inset-inline-start", "inset-inline-end"]),
   ("inset-block", .pair, ["inset-block-start", "inset-block-end"]),
   ("gap", .pair, ["row-gap", "column-gap"]),
   ("overflow", .pair, ["overflow-x", "overflow-y"]),
   ("overscroll-behavior", .pair, ["overscroll-behavior-x", "overscroll-behavior-y"]),
   ("place-content", .pair, ["align-content", "justify-content"]),
   ("place-items", .pair, ["align-items", "justify-items"]),
   ("place-self", .pair, ["align-self", "justify-self"]),
   ("grid-row", .span, ["grid-row-start", "grid-row-end"]),
   ("grid-column", .span, ["grid-column-start", "grid-column-end"]),
   ("border-top", .line, ["border-top-width", "border-top-style", "border-top-color"]),
   ("border-right", .line, ["border-right-width", "border-right-style", "border-right-color"]),
   ("border-bottom", .line,
    ["border-bottom-width", "border-bottom-style", "border-bottom-color"]),
   ("border-left", .line, ["border-left-width", "border-left-style", "border-left-color"]),
   ("border-inline-start", .line,
    ["border-inline-start-width", "border-inline-start-style", "border-inline-start-color"]),
   ("border-inline-end", .line,
    ["border-inline-end-width", "border-inline-end-style", "border-inline-end-color"]),
   ("border-block-start", .line,
    ["border-block-start-width", "border-block-start-style", "border-block-start-color"]),
   ("border-block-end", .line,
    ["border-block-end-width", "border-block-end-style", "border-block-end-color"]),
   ("outline", .line, ["outline-width", "outline-style", "outline-color"]),
   ("border", .border, borderLonghands),
   ("flex", .flex, ["flex-grow", "flex-shrink", "flex-basis"])]

def form? (property : String) : Option Form :=
  (expansions.lookup property).map Prod.fst

/-- The longhands that a shorthand expands to. -/
def targets? (property : String) : Option (List String) :=
  (expansions.lookup property).map Prod.snd

def lineStyles : List String :=
  ["none", "hidden", "dotted", "dashed", "solid", "double", "groove", "ridge", "inset", "outset"]

def widthKeywords : List String :=
  ["thin", "medium", "thick"]

def isNumber (word : List Char) : Bool :=
  (Decimal.read? word).isSome

/-- A zero, a number with a unit, or a calculation. -/
def isWidth (word : List Char) : Bool :=
  let startsNumeric :=
    match word.dropWhile fun c => c == '-' || c == '+' with
    | c :: _ => c.isDigit || c == '.'
    | [] => false
  word == ['0'] || (startsNumeric && !isNumber word) || "calc(".toList.isPrefixOf word

def isLineStyle (word : List Char) : Bool :=
  lineStyles.contains (String.ofList word)

def isLineWidth (word : List Char) : Bool :=
  isWidth word || widthKeywords.contains (String.ofList word)

def sides? : List (List Char) → Option (List (List Char))
  | [all] => some [all, all, all, all]
  | [vertical, horizontal] => some [vertical, horizontal, vertical, horizontal]
  | [top, horizontal, bottom] => some [top, horizontal, bottom, horizontal]
  | [top, right, bottom, left] => some [top, right, bottom, left]
  | _ => none

/-- The parts of a line that were found so far. -/
structure Line where
  width : Option (List Char)
  style : Option (List Char)
  color : Option (List Char)
  deriving DecidableEq, Repr

/-- Takes the words of a line one by one; none of its parts may occur twice. -/
def lineFrom? (line : Line) : List (List Char) → Option Line
  | [] => some line
  | word :: words =>
    if isLineStyle word then
      if line.style.isSome then none
      else lineFrom? ⟨line.width, some word, line.color⟩ words
    else if isLineWidth word then
      if line.width.isSome then none
      else lineFrom? ⟨some word, line.style, line.color⟩ words
    else if line.color.isSome then none
    else lineFrom? ⟨line.width, line.style, some word⟩ words

/-- The width, style and color of a line. What is missing has its initial value, and so has all of
the line `none`. -/
def line? (words : List (List Char)) : Option (List (List Char)) :=
  let initial (line : Line) : List (List Char) :=
    [line.width.getD "medium".toList, line.style.getD "none".toList,
      line.color.getD "currentcolor".toList]
  if words.isEmpty || 3 < words.length then none
  else if words = ["none".toList] then some (initial ⟨none, none, none⟩)
  else (lineFrom? ⟨none, none, none⟩ words).map initial

/-- The grow factor, shrink factor and basis of a flexible item. -/
def flex? : List (List Char) → Option (List (List Char))
  | [word] =>
    if word = "none".toList then some [['0'], ['0'], "auto".toList]
    else if word = "auto".toList then some [['1'], ['1'], "auto".toList]
    else if word = "initial".toList then some [['0'], ['1'], "auto".toList]
    else if isNumber word then some [word, ['1'], ['0', '%']]
    else some [['1'], ['1'], word]
  | [grow, second] =>
    if isNumber grow then
      if isNumber second then some [grow, second, ['0', '%']] else some [grow, ['1'], second]
    else none
  | [grow, shrink, basis] =>
    if isNumber grow && isNumber shrink then some [grow, shrink, basis] else none
  | _ => none

/-- The values of the longhands, in the order of the targets. -/
def values? (form : Form) (body : List Char) : Option (List (List Char)) :=
  let words := Text.splitTopLevel ' ' body
  match form with
  | .sides => if body.contains '/' then none else sides? words
  | .pair =>
    match words with
    | [both] => some [both, both]
    | [first, second] => some [first, second]
    | _ => none
  | .span =>
    match Text.splitTopLevel '/' body with
    | [start] => some [start, "auto".toList]
    | [start, stop] => some [start, stop]
    | _ => none
  | .line => line? words
  | .border => (line? words).map fun parts => parts.flatMap fun part => List.replicate 4 part
  | .flex => flex? words

def important : List Char := "!important".toList

/-- The declarations that a normalized shorthand value stands for. An `!important` goes to each of
them. -/
def expand? (property value : String) : Option (List (String × String)) := do
  let form ← form? property
  let text := value.toList
  if Text.occursIn "var(".toList text then none
  else
    let (body, mark) :=
      match important.isSuffixOf? text with
      | some body => (Text.trimEnd body, important)
      | none => (text, [])
    let values ← values? form body
    let targets ← targets? property
    some (targets.zip (values.map fun v => String.ofList (v ++ mark)))

/-- Fails if a list of properties holds a shorthand together with a property that it sets. -/
def checkForbidden (definition : String) (properties : List String) : Except StyleError Unit :=
  let conflict? (shorthand : String) : Option (String × String) :=
    if Property.isShorthand shorthand then
      (properties.find? (Property.allLonghands shorthand).contains).map fun l => (shorthand, l)
    else none
  match properties.findSome? conflict? with
  | some (shorthand, longhand) =>
    .error (.invalid definition (.shorthandWithLonghand shorthand longhand) [])
  | none => .ok ()

end AtomicCss.Expansion
