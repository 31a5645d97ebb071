import AtomicCss.Config

/-!
# Definitions

A sheet collects definitions in the order in which they are made. References between them are
looked up only when the sheet is compiled.
-/

namespace AtomicCss

/-- A part of a class: a property, or another class whose declarations are spliced in. -/
inductive ClassItem
  | property (name : String) (value : Value)
  | splice (className : String)

/-- The registered type of a variable. -/
structure VarType where
  descriptor : String
  inherits : Bool
  deriving DecidableEq, Repr

structure Var where
  value : Value
  type : Option VarType

inductive Body
  | staticClass (name : String) (items : List ClassItem)
  | dynamicClass (name : String) (parameters : List String) (properties : List (String × String))
  | vars (space : String) (vars : List (String × Var))
  | consts (space : String) (values : List (String × Scalar))
  | theme (space name : String) (overrides : Declarations)
  | keyframes (name : String) (frames : List (String × Declarations))
  | positionTry (name : String) (declarations : Declarations)
  | viewTransition (name : String) (parts : List (String × Declarations))
  | marker (space name : String)

namespace Body

/-- What a definition is a definition of. -/
inductive Kind
  | staticClass
  | dynamicClass
  | vars
  | consts
  | theme
  | keyframes
  | positionTry
  | viewTransition
  | marker
  deriving DecidableEq, Repr

/-- The kind, namespace and name that no two definitions share. -/
def key : Body → Kind × String × String
  | staticClass name _ => (.staticClass, "", name)
  | dynamicClass name _ _ => (.dynamicClass, "", name)
  | vars space _ => (.vars, space, "")
  | consts space _ => (.consts, space, "")
  | theme space name _ => (.theme, space, name)
  | keyframes name _ => (.keyframes, "", name)
  | positionTry name _ => (.positionTry, "", name)
  | viewTransition name _ => (.viewTransition, "", name)
  | marker space name => (.marker, space, name)

/-- The definition as messages call it. -/
def label : Body → String
  | staticClass name _ => "class " ++ name
  | dynamicClass name _ _ => "dynamic class " ++ name
  | vars space _ => "vars " ++ space
  | consts space _ => "consts " ++ space
  | theme space name _ => "theme " ++ qualified space name
  | keyframes name _ => "keyframes " ++ name
  | positionTry name _ => "position-try " ++ name
  | viewTransition name _ => "view-transition " ++ name
  | marker space name => "marker " ++ qualified space name

/-- The namespaces and names that references of a kind can lead to. -/
def defines (kind : ReferenceKind) : Body → List (String × String)
  | vars space vs => if kind = .var then vs.map fun v => (space, v.1) else []
  | consts space values => if kind = .const then values.map fun v => (space, v.1) else []
  | keyframes name _ => if kind = .keyframes then [("", name)] else []
  | positionTry name _ => if kind = .positionTry then [("", name)] else []
  | viewTransition name _ => if kind = .viewTransition then [("", name)] else []
  | marker space name => if kind = .marker then [(space, name)] else []
  | _ => []

end Body

structure Definition where
  site : Site
  body : Body

/-- Definitions in order, and the site that the next ones get. -/
structure Sheet where
  site : Site
  definitions : List Definition

namespace Sheet

def empty : Sheet := ⟨.unknown, []⟩

def define (sheet : Sheet) (body : Body) : Sheet :=
  { sheet with definitions := sheet.definitions ++ [⟨sheet.site, body⟩] }

def size (sheet : Sheet) : Nat :=
  sheet.definitions.length

/-- The first definition whose key was used before. -/
def repeatedIn? (seen : List (Body.Kind × String × String)) :
    List Definition → Option Definition
  | [] => none
  | d :: ds =>
    if seen.contains d.body.key then some d else repeatedIn? (d.body.key :: seen) ds

def repeated? (sheet : Sheet) : Option Definition :=
  repeatedIn? [] sheet.definitions

def has (sheet : Sheet) (key : Body.Kind × String × String) : Bool :=
  sheet.definitions.any fun d => d.body.key == key

/-- The names of all static classes. -/
def classNames (sheet : Sheet) : List String :=
  sheet.definitions.filterMap fun d =>
    match d.body with
    | .staticClass name _ => some name
    | _ => none

/-- Everything that references of a kind can lead to. -/
def targets (sheet : Sheet) (kind : ReferenceKind) : List (String × String) :=
  sheet.definitions.flatMap fun d => d.body.defines kind

/-- Whether the target of a reference is defined anywhere. Only variables, constants and markers
have namespaces. -/
def defines (sheet : Sheet) (r : Reference) : Bool :=
  match r.kind with
  | .var | .const | .marker => (sheet.targets r.kind).contains (r.space, r.name)
  | _ => (sheet.targets r.kind).contains ("", r.name)

/-- The names that a reference of a kind can be written with. -/
def names (sheet : Sheet) (kind : ReferenceKind) : List String :=
  (sheet.targets kind).map fun (space, name) =>
    match kind with
    | .var | .const | .marker => qualified space name
    | _ => name

end Sheet

end AtomicCss
