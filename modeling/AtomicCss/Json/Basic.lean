/-!
# JSON values

Objects keep their members in written order. A key may be repeated until the object is settled;
then it keeps its first place and has its last value.
-/

namespace AtomicCss

/-- A number is a whole number of 64 bits or a double. -/
inductive Json.Number
  | whole (value : Int)
  | double (value : Float)
  deriving Repr

inductive Json
  | null
  | bool (value : Bool)
  | number (value : Json.Number)
  | string (value : String)
  | array (items : List Json)
  | object (members : List (String × Json))

namespace Json

def Number.toFloat : Number → Float
  | whole n => Float.ofInt n
  | double x => x

/-- Sets a key, in its old place if it has one. -/
def setMember (members : List (String × Json)) (key : String) (value : Json) :
    List (String × Json) :=
  match members with
  | [] => [(key, value)]
  | (k, v) :: rest => if k = key then (k, value) :: rest else (k, v) :: setMember rest key value

mutual

/-- The value without repeated keys, at any depth. -/
def settled : Json → Json
  | array items => array (settledItems items)
  | object members =>
    object ((settledMembers members).foldl (fun ms m => setMember ms m.1 m.2) [])
  | value => value

def settledItems : List Json → List Json
  | [] => []
  | item :: items => settled item :: settledItems items

def settledMembers : List (String × Json) → List (String × Json)
  | [] => []
  | (key, value) :: members => (key, settled value) :: settledMembers members

end

end Json

end AtomicCss
