import AtomicCss.Property.Group
import AtomicCss.Text.Affix

/-!
# Suggestions for misspelled names

Candidates are ranked by their edit distance to the name; those that are too far away still count,
behind all others, if one of the two texts contains the other.
-/

namespace AtomicCss.Suggestion

/-- The rest of a row of the distance table, right of a cell with the value `left`; `diagonal` is
the cell above that one, and the last argument holds the cells above the rest. -/
def rowFrom (c : Char) : Nat → Nat → List Char → List Nat → List Nat
  | left, diagonal, d :: ds, above :: row =>
    let here := min (min (left + 1) (above + 1)) (diagonal + if c = d then 0 else 1)
    here :: rowFrom c here above ds row
  | _, _, _, _ => []

/-- The row of the distance table below `row`, for one more character of the first text. -/
def nextRow (target : List Char) (row : List Nat) (c : Char) : List Nat :=
  match row with
  | first :: above => (first + 1) :: rowFrom c (first + 1) first target above
  | [] => []

/-- How many insertions, deletions and replacements of characters lead from one text to the
other. -/
def editDistance (source target : List Char) : Nat :=
  (source.foldl (nextRow target) (List.range (target.length + 1))).getLast?.getD 0

def mostSuggestions : Nat := 3

/-- The largest edit distance that counts as close to a name. -/
def limit (name : String) : Nat :=
  max (name.utf8ByteSize / 3) 2

/-- The rank of a candidate; the lower the better. -/
def rank? (name candidate : String) : Option Nat :=
  let distance := editDistance name.toList candidate.toList
  let related :=
    Text.occursIn name.toList candidate.toList || Text.occursIn candidate.toList name.toList
  if distance ≤ limit name then some distance
  else if related && 2 < name.utf8ByteSize then some (limit name + 1)
  else none

/-- Ranks first, then texts. -/
def precedes (a b : Nat × String) : Bool :=
  a.1 < b.1 || (a.1 == b.1 && (compare a.2 b.2).isLE)

/-- The candidates closest to a name. -/
def closest (name : String) (candidates : List String) : List String :=
  let ranked := candidates.filterMap fun c => (rank? name c).map fun r => (r, c)
  ((ranked.mergeSort precedes).eraseReps.take mostSuggestions).map Prod.snd

/-- The known properties closest to a name. -/
def properties (name : String) : List String :=
  closest name Property.known

end AtomicCss.Suggestion
