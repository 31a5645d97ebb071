import AtomicCss.Text.Blank

/-!
# Beginnings and parts of a text

Letters are compared with or without their ASCII case; no other case pairs are known.
-/

namespace AtomicCss.Text

def lower (cs : List Char) : List Char :=
  cs.map Char.toLower

def equalsIgnoringCase (s t : List Char) : Bool :=
  lower s == lower t

/-- What follows `start`, if the text begins with it. -/
def dropStart? (s start : String) : Option String :=
  (start.toList.isPrefixOf? s.toList).map String.ofList

def trimmed (s : String) : String :=
  String.ofList (trim s.toList)

def occursIn (part : List Char) : List Char → Bool
  | [] => part.isEmpty
  | c :: cs => part.isPrefixOf (c :: cs) || occursIn part cs

/-- The parts between the occurrences of a separator; one more part than separators. -/
def splitAt (sep : Char) : List Char → List (List Char)
  | [] => [[]]
  | c :: cs =>
    if c = sep then [] :: splitAt sep cs
    else
      match splitAt sep cs with
      | [] => [[c]]
      | part :: parts => (c :: part) :: parts

/-- The text before and after the first separator. -/
def splitOnce? (sep : Char) : List Char → Option (List Char × List Char)
  | [] => none
  | c :: cs =>
    if c = sep then some ([], cs)
    else (splitOnce? sep cs).map fun (before, after) => (c :: before, after)

end AtomicCss.Text
