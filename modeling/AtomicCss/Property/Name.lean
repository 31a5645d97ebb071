import AtomicCss.Text.Affix

/-!
# Spellings of property names

Names may be written in camel case or with underscores; rules use dashes. Custom properties keep
their spelling.
-/

namespace AtomicCss.Property

def isCustomText (name : List Char) : Bool :=
  ['-', '-'].isPrefixOf name

def isCustom (name : String) : Bool :=
  isCustomText name.toList

/-- Each underscore becomes a dash, each capital a dash and its small letter. The first character
has no dash in front. -/
def dashes (first : Bool) : List Char → List Char
  | [] => []
  | c :: cs =>
    if c = '_' then '-' :: dashes false cs
    else if c.isUpper then
      if first then c.toLower :: dashes false cs else '-' :: c.toLower :: dashes false cs
    else c :: dashes false cs

def vendorWords : List (List Char) :=
  ["webkit-".toList, "moz-".toList, "ms-".toList]

/-- The dashed spelling. A capital vendor name in front gets the dash that vendor names have. -/
def dashCaseText (name : List Char) : List Char :=
  if isCustomText name then name
  else
    let out := dashes true name
    let capital := (name.head?.map Char.isUpper).getD false
    if capital && vendorWords.any (·.isPrefixOf out) then '-' :: out else out

def dashCase (name : String) : String :=
  String.ofList (dashCaseText name.toList)

def vendors : List String :=
  ["-webkit-", "-moz-", "-ms-", "-o-"]

/-- The standard name behind a vendor's. -/
def unprefixed? (name : String) : Option String :=
  vendors.findSome? fun vendor => Text.dropStart? name vendor

end AtomicCss.Property
