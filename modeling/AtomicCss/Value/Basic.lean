/-!
# Declaration values

A declaration gives a property a single value, a list of alternatives, a map from conditions to
values, or nothing. A single value is text, a number, or a reference to another definition.
-/

namespace AtomicCss

/-- The kinds of definition that a value can refer to. -/
inductive ReferenceKind
  | var
  | const
  | keyframes
  | positionTry
  | viewTransition
  | marker
  deriving DecidableEq, Repr

def ReferenceKind.name : ReferenceKind → String
  | .var => "var"
  | .const => "const"
  | .keyframes => "keyframes"
  | .positionTry => "position-try"
  | .viewTransition => "view-transition"
  | .marker => "marker"

/-- A name in a namespace; keyframes, position-try and view transitions live in the empty one. -/
structure Reference where
  kind : ReferenceKind
  space : String
  name : String
  deriving DecidableEq, Repr

/-- The name with its namespace in front. -/
def qualified (space name : String) : String :=
  space ++ "." ++ name

namespace Reference

def qualifiedName (r : Reference) : String :=
  if r.space.isEmpty then r.name else qualified r.space r.name

def text (r : Reference) : String :=
  r.kind.name ++ " " ++ r.qualifiedName

end Reference

inductive Scalar
  | text (text : String)
  | number (value : Float)
  | ref (target : Reference)
  deriving Repr

/-- Both lists of alternatives have the most preferred value first; only the second one folds
variables into one nested `var()`. -/
inductive Value
  | unset
  | scalar (value : Scalar)
  | map (entries : List (String × Value))
  | fallback (values : List Scalar)
  | firstThatWorks (values : List Scalar)

/-- Properties and their values in written order. -/
abbrev Declarations := List (String × Value)

/-- The values of one declaration in the order they are written out, the most preferred last. -/
structure Normalized where
  values : List String
  deriving DecidableEq, Repr

namespace Normalized

/-- The only value, if there are no fallbacks. -/
def single? (v : Normalized) : Option String :=
  match v.values with
  | [text] => some text
  | _ => none

/-- The body of a declaration block, such as `position:fixed;position:sticky`. -/
def declarations (v : Normalized) (property : String) : String :=
  String.intercalate ";" (v.values.map fun value => property ++ ":" ++ value)

/-- The text that identifies the value. -/
def identity (v : Normalized) : String :=
  String.intercalate ", " v.values

end Normalized

end AtomicCss
