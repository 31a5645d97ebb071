import AtomicCss.Property.Name
import AtomicCss.Property.Unit
import AtomicCss.Token.Scan
import AtomicCss.Value.Number
import AtomicCss.Value.Shown

/-!
# The canonical text of a value

Values that mean the same are brought to one text, so that they get the same generated name:
blanks that separate nothing are dropped, numbers lose redundant digits and units, and an
`!important` is moved to the end.
-/

namespace AtomicCss.Value

/-- Functions whose arguments keep their numbers as written. -/
def verbatimFunctions : List String :=
  ["calc", "clamp", "min", "max"]

/-- Functions that make a `content` value CSS rather than plain text. -/
def contentFunctions : List String :=
  ["attr", "counter", "counters", "var", "url", "image-set", "linear-gradient", "radial-gradient",
   "conic-gradient"]

/-- Keywords that make a `content` value CSS rather than plain text. -/
def contentKeywords : List String :=
  ["open-quote", "close-quote", "no-open-quote", "no-close-quote", "none", "normal", "inherit",
   "initial", "unset", "revert", "revert-layer"]

def angleUnits : List String :=
  ["deg", "grad", "rad", "turn"]

def lengthUnits : List String :=
  ["px", "em", "rem", "ex", "ch", "lh", "rlh", "cap", "ic", "vw", "vh", "vi", "vb", "vmin", "vmax",
   "svw", "svh", "lvw", "lvh", "dvw", "dvh", "cqw", "cqh", "cqi", "cqb", "cqmin", "cqmax", "cm",
   "mm", "q", "in", "pt", "pc"]

/-- Whether a name is in a list of lower-case names, whatever its ASCII case. -/
def isNamed (names : List String) (name : List Char) : Bool :=
  names.contains (String.ofList (Text.lower name))

/-- A dimension in canonical form. Ten milliseconds and more become seconds, and a zero loses the
unit where CSS allows it. -/
def canonicalDimension (text unit : List Char) : List Char :=
  let value := (Decimal.read? text).getD (0.0 / 0.0)
  if isNamed ["ms"] unit then
    if value == 0.0 then ['0', 's']
    else if value ≥ 10.0 || value ≤ -10.0 then
      Decimal.canonical (Decimal.format (value / 1000.0)) ++ ['s']
    else Decimal.canonical text ++ ['m', 's']
  else if value == 0.0 && isNamed angleUnits unit then ['0', 'd', 'e', 'g']
  else if value == 0.0 && isNamed ["s"] unit then ['0', 's']
  else if value == 0.0 && isNamed lengthUnits unit then ['0']
  else Decimal.canonical text ++ unit

/-- Properties whose identifiers are property names and get their dashed spelling. -/
def namesProperties (property : String) : Bool :=
  property == "transition-property" || property == "will-change"

/-- Properties in which an empty string is written with double quotes. -/
def holdsQuotes (property : String) : Bool :=
  property == "content" || property == "quotes"

/-- The canonical text of a token. Inside a verbatim function numbers stay as written. -/
def tokenText (property : String) (verbatim : Bool) : Token → List Char
  | .ident name =>
    if namesProperties property && !Property.isCustomText name then Property.dashCaseText name
    else name
  | .string quote raw =>
    if holdsQuotes property && quote == '\'' && raw.isEmpty then ['"', '"']
    else quote :: (raw ++ [quote])
  | .number text => if verbatim then text else Decimal.canonical text
  | .percentage text => (if verbatim then text else Decimal.canonical text) ++ ['%']
  | .dimension text unit => if verbatim then text ++ unit else canonicalDimension text unit
  | token => token.spelling

/-- The open parentheses behind a token, innermost first; `true` marks a verbatim function. -/
def scopesAfter (scopes : List Bool) : Token → List Bool
  | .function name => isNamed verbatimFunctions name :: scopes
  | .leftParen => false :: scopes
  | .rightParen => scopes.tail
  | _ => scopes

/-- Whether blanks between a written text and a token separate nothing. -/
def needsNoSpace (written : List Char) (token : Token) : Bool :=
  let closesUp :=
    match written.getLast? with
    | none => true
    | some c => c == '(' || c == ','
  closesUp || token == .rightParen || token == .comma

/-- Writes tokens behind `written`; `pending` tells whether blanks were passed since. -/
def writeTokens (property : String) (written : List Char) (pending : Bool) (scopes : List Bool) :
    List Token → List Char
  | [] => written
  | .whitespace :: tokens => writeTokens property written true scopes tokens
  | token :: tokens =>
    let space := if pending && !needsNoSpace written token then [' '] else []
    writeTokens property (written ++ space ++ tokenText property (scopes.any id) token) false
      (scopesAfter scopes token) tokens

def importantMark : List Char :=
  ['!', 'i', 'm', 'p', 'o', 'r', 't', 'a', 'n', 't']

/-- The value without its `!important`, and whether it had one. Blanks may stand on both sides of
the exclamation mark. -/
def splitImportant (value : List Char) : List Char × Bool :=
  let cut := value.length - 9
  if Text.lower (value.drop cut) = importantMark.tail then
    match (Text.trimEnd (value.take cut)).reverse with
    | '!' :: body => (Text.trimEnd body.reverse, true)
    | _ => (value, false)
  else (value, false)

/-- Whether the tokens are strings, content functions and content keywords, at least one, with
slashes only between them. -/
def contentItems (depth : Nat) (found : Bool) : List Token → Bool
  | [] => found
  | token :: tokens =>
    if 0 < depth then
      match token with
      | .function _ | .leftParen => contentItems (depth + 1) found tokens
      | .rightParen => contentItems (depth - 1) found tokens
      | _ => contentItems depth found tokens
    else
      match token with
      | .whitespace => contentItems 0 found tokens
      | .string .. | .url _ => contentItems 0 true tokens
      | .delim c => c == '/' && found && contentItems 0 found tokens
      | .function name => isNamed contentFunctions name && contentItems 1 true tokens
      | .ident name => isNamed contentKeywords name && contentItems 0 true tokens
      | _ => false

/-- Whether the value of a `content` property is CSS already. Anything else is plain text. -/
def isCssContent (value : List Char) : Bool :=
  match Token.tokenize value with
  | .ok tokens => contentItems 0 false tokens
  | .error _ => false

/-- Quotes and backslashes get a backslash in front. -/
def escaped : List Char → List Char
  | [] => []
  | c :: cs => if c = '"' ∨ c = '\\' then '\\' :: c :: escaped cs else c :: escaped cs

def quoted (text : List Char) : List Char :=
  '"' :: (escaped text ++ ['"'])

/-- The canonical text of a value of a property. -/
def normalizeText (property : String) (raw : List Char) : Except CssFault (List Char) :=
  let (body, important) := splitImportant (Text.trim raw)
  let mark := if important then importantMark else []
  if property == "content" && !isCssContent body then .ok (quoted body ++ mark)
  else
    (Token.tokenize body).map fun tokens => writeTokens property [] false [] tokens ++ mark

/-- A number gets the unit that its property takes. -/
def normalizeNumber (property : String) (x : Float) : Except CssFault (List Char) :=
  let text := Decimal.format x
  if !Decimal.isFinite x then
    .error (.invalidValue property (.notFinite (String.ofList (Decimal.plainText x))))
  else if Property.isCustom property then .ok text
  else if Property.isTime property then normalizeText property (text ++ ['m', 's'])
  else if Property.isLength property && !(x == 0.0) then
    normalizeText property (text ++ ['p', 'x'])
  else normalizeText property text

def normalizeScalar (property : String) : Scalar → Except CssFault String
  | .text text => (normalizeText property text.toList).map String.ofList
  | .number x => (normalizeNumber property x).map String.ofList
  | .ref target => .error (.invalidValue property (.unresolved target))

def normalizeList (property : String) (values : List Scalar) : Except CssFault (List String) :=
  if values.isEmpty then .error (.invalidValue property .emptyList)
  else values.mapM (normalizeScalar property)

/-- What stands between `var(` and the last parenthesis. -/
def varArgument? (value : List Char) : Option (List Char) :=
  (['v', 'a', 'r', '('].isPrefixOf? value).bind fun rest => [')'].isSuffixOf? rest

/-- Whether a value is a variable without a fallback of its own. -/
def isPlainVarText (value : List Char) : Bool :=
  match varArgument? value with
  | some name =>
    Property.isCustomText name && !name.any fun c => c == ',' || c == '(' || c == ')' || c == ' '
  | none => false

def isPlainVar (value : String) : Bool :=
  isPlainVarText value.toList

/-- Variables with the next value as the fallback of each, the last value standing alone. -/
def nestVars : List String → String
  | [] => ""
  | [value] => value
  | value :: values =>
    let name := (varArgument? value.toList).getD value.toList
    "var(" ++ String.ofList name ++ ", " ++ nestVars values ++ ")"

/-- Preferences with the first run of variables, and the value after it, folded into one. -/
def foldVars (values : List String) : List String :=
  let before := values.takeWhile (!isPlainVar ·)
  let rest := values.dropWhile (!isPlainVar ·)
  let vars := rest.takeWhile isPlainVar
  let after := rest.dropWhile isPlainVar
  if rest.isEmpty then values
  else before ++ nestVars (vars ++ after.take 1) :: after.drop 1

/-- The normalized values of a single value or a list of alternatives. -/
def normalizeLeaf (property : String) : Value → Except CssFault Normalized
  | .scalar value => (normalizeScalar property value).map fun text => ⟨[text]⟩
  | .fallback values => (normalizeList property values).map fun texts => ⟨texts.reverse⟩
  | .firstThatWorks values =>
    (normalizeList property values).map fun texts => ⟨(foldVars texts).reverse⟩
  | value => .error (.invalidValue property (.notALeaf value.shown))

end AtomicCss.Value
