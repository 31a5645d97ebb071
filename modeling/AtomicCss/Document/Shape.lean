import AtomicCss.Json.Parser

/-!
# The shape of a document

A document has a configuration and a list of definitions, both optional. A record is written as an
object, or as an array of its fields in their order. All of a document is checked for its shape
before any value in it is looked at.
-/

namespace AtomicCss.Document

/-- The fields of a record by their names. No field may occur twice; other members are refused if
the record is closed and passed over otherwise. -/
def fields? (names : List String) (closed : Bool) : Json → Option (List (Option Json))
  | .object members =>
    let repeats := names.any fun name => 1 < members.countP fun m => m.1 == name
    let strangers := members.any fun m => !names.contains m.1
    if repeats || (closed && strangers) then none
    else some (names.map fun name => members.lookup name)
  | .array items =>
    if names.length < items.length then none
    else some ((items.map some) ++ List.replicate (names.length - items.length) none)
  | _ => none

def string? : Json → Option String
  | .string s => some s
  | _ => none

def bool? : Json → Option Bool
  | .bool b => some b
  | _ => none

def strings? : Json → Option (List String)
  | .array items => items.mapM string?
  | _ => none

/-- The members of an object, each key once. -/
def members? (json : Json) : Option (List (String × Json)) :=
  match json.settled with
  | .object members => some members
  | _ => none

/-- A field that may be missing or null. -/
def optional? {α : Type} (read? : Json → Option α) : Option Json → Option (Option α)
  | none => some none
  | some .null => some none
  | some json => (read? json).map some

structure ConfigShape where
  shorthands : Option String := none
  layers : Option Bool := none
  classStart : Option String := none
  flipPhysical : Option Bool := none
  allowedProperties : List String := []
  deriving DecidableEq, Repr

def configFields : List String :=
  ["shorthand_behavior", "use_css_layers", "class_prefix", "legacy_value_flipping",
   "allowed_properties"]

def configShape? (json : Json) : Option ConfigShape := do
  match ← fields? configFields true json with
  | [shorthands, layers, classStart, flipPhysical, allowed] => do
    let shorthands ← optional? string? shorthands
    let layers ← optional? bool? layers
    let classStart ← optional? string? classStart
    let flipPhysical ← optional? bool? flipPhysical
    let allowedProperties ←
      match allowed with
      | none => some []
      | some json => strings? json
    some { shorthands, layers, classStart, flipPhysical, allowedProperties }
  | _ => none

/-- A definition whose values have not been looked at. -/
inductive DefinitionShape
  | staticClass (name : String) (declarations : List (String × Json))
  | dynamicClass (name : String) (parameters : List String) (properties : List (String × Json))
  | vars (space : String) (values : List (String × Json))
  | consts (space : String) (values : List (String × Json))
  | theme (space name : String) (overrides : List (String × Json))
  | keyframes (name : String) (frames : List (String × Json))
  | positionTry (name : String) (declarations : List (String × Json))
  | viewTransition (name : String) (parts : List (String × Json))
  | marker (space name : String)

/-- A record whose fields are a name and an object. -/
def nameAndMembers? (nameField membersField : String) (json : Json) :
    Option (String × List (String × Json)) := do
  match ← fields? [nameField, membersField] false json with
  | [some name, some members] => do some (← string? name, ← members? members)
  | _ => none

/-- The rest of a definition of a kind. -/
def definitionOfKind? (kind : String) (json : Json) : Option DefinitionShape :=
  match kind with
  | "class" => do
    match ← fields? ["name", "declarations"] false json with
    | [some name, declarations] => do
      let members ←
        match declarations with
        | none => some []
        | some json => members? json
      some (.staticClass (← string? name) members)
    | _ => none
  | "dynamic" => do
    match ← fields? ["name", "params", "properties"] false json with
    | [some name, some parameters, some properties] => do
      some (.dynamicClass (← string? name) (← strings? parameters) (← members? properties))
    | _ => none
  | "vars" => (nameAndMembers? "namespace" "values" json).map fun (space, values) =>
    .vars space values
  | "consts" => (nameAndMembers? "namespace" "values" json).map fun (space, values) =>
    .consts space values
  | "theme" => do
    match ← fields? ["namespace", "name", "overrides"] false json with
    | [some space, some name, some overrides] => do
      some (.theme (← string? space) (← string? name) (← members? overrides))
    | _ => none
  | "keyframes" => (nameAndMembers? "name" "frames" json).map fun (name, frames) =>
    .keyframes name frames
  | "position_try" => (nameAndMembers? "name" "declarations" json).map fun (name, declarations) =>
    .positionTry name declarations
  | "view_transition" => (nameAndMembers? "name" "parts" json).map fun (name, parts) =>
    .viewTransition name parts
  | "marker" => do
    match ← fields? ["namespace", "name"] false json with
    | [some space, some name] => do some (.marker (← string? space) (← string? name))
    | _ => none
  | _ => none

/-- A definition says its kind, as a field or as the first item. -/
def definitionShape? : Json → Option DefinitionShape
  | .object members =>
    match members.filter fun m => m.1 == "kind" with
    | [(_, .string kind)] =>
      definitionOfKind? kind (.object (members.filter fun m => m.1 != "kind"))
    | _ => none
  | .array (.string kind :: items) => definitionOfKind? kind (.array items)
  | _ => none

structure Shape where
  config : ConfigShape
  definitions : List DefinitionShape

def shape? (text : String) : Option Shape := do
  let names := ["config", "definitions"]
  let json ← Json.Parser.parseKept? names text
  match ← fields? names false json with
  | [config, definitions] => do
    let config ←
      match config with
      | none => some {}
      | some json => configShape? json
    let definitions ←
      match definitions with
      | none => some []
      | some (.array items) => items.mapM definitionShape?
      | some _ => none
    some ⟨config, definitions⟩
  | _ => none

end AtomicCss.Document
