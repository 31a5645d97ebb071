/-!
# Lists of keyed values

Pairs in insertion order with at most one value per key. `put` keeps the place of a key that is
there already, `renew` moves it to the end.
-/

namespace AtomicCss

abbrev Keyed (κ α : Type) := List (κ × α)

namespace Keyed

variable {κ α : Type} [DecidableEq κ]

def get? : Keyed κ α → κ → Option α
  | [], _ => none
  | (k, a) :: rest, key => if k = key then some a else get? rest key

def put : Keyed κ α → κ → α → Keyed κ α
  | [], key, value => [(key, value)]
  | (k, a) :: rest, key, value =>
    if k = key then (k, value) :: rest else (k, a) :: put rest key value

def putAll (m : Keyed κ α) (items : List (κ × α)) : Keyed κ α :=
  items.foldl (fun m item => put m item.1 item.2) m

def remove (m : Keyed κ α) (key : κ) : Keyed κ α :=
  m.filter fun item => item.1 ≠ key

def renew (m : Keyed κ α) (key : κ) (value : α) : Keyed κ α :=
  remove m key ++ [(key, value)]

/-- Changes the value of a key, which starts as `initial` at the end if the key is not there. -/
def update (m : Keyed κ α) (key : κ) (initial : α) (change : α → α) : Keyed κ α :=
  put m key (change ((get? m key).getD initial))

def keys (m : Keyed κ α) : List κ :=
  m.map Prod.fst

end Keyed

end AtomicCss
