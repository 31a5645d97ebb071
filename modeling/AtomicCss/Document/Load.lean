import AtomicCss.Document.Shape
import AtomicCss.Document.Value

/-!
# Loading a document

The definitions of a document are made in its order. Each has the document's path and its own
number as its site.
-/

namespace AtomicCss.Document

def ConfigShape.toConfig (c : ConfigShape) : Except StyleError Config := do
  let shorthands ←
    match c.shorthands with
    | some text => ShorthandPolicy.parse text
    | none => .ok .accept
  let config : Config :=
    { shorthands
      layers := c.layers.getD false
      classStart := c.classStart.getD "x"
      flipPhysical := c.flipPhysical.getD false
      allowedProperties := c.allowedProperties }
  config.validate
  .ok config

def readParameter (member : String × Json) : Except Problem (String × String) :=
  match member.2 with
  | .string parameter => .ok (member.1, parameter)
  | _ => .error (.notAParameter member.1)

/-- Reads the value of a member and keeps its key. -/
def readNamed {α : Type} (read : Json → Except Problem α) (member : String × Json) :
    Except Problem (String × α) :=
  (read member.2).map fun value => (member.1, value)

def DefinitionShape.toBody : DefinitionShape → Except Problem Body
  | staticClass name declarations =>
    (declarations.mapM readItem).map fun items => .staticClass name items.flatten
  | dynamicClass name parameters properties =>
    (properties.mapM readParameter).map fun properties => .dynamicClass name parameters properties
  | vars space values =>
    (values.mapM (readNamed readVar)).map fun vars => .vars space vars
  | consts space values =>
    (values.mapM (readNamed readScalar)).map fun values => .consts space values
  | theme space name overrides =>
    (readMembers overrides).map fun overrides => .theme space name overrides
  | keyframes name frames => (readNested frames).map fun frames => .keyframes name frames
  | positionTry name declarations =>
    (readMembers declarations).map fun declarations => .positionTry name declarations
  | viewTransition name parts => (readNested parts).map fun parts => .viewTransition name parts
  | marker space name => .ok (.marker space name)

/-- Makes the definitions from a number on. -/
def define (path : String) : Nat → Sheet → List DefinitionShape → Except Error Sheet
  | _, sheet, [] => .ok sheet
  | number, sheet, shape :: shapes =>
    match shape.toBody with
    | .error problem => .error (.invalid number problem)
    | .ok body =>
      let sheet : Sheet := { sheet with site := ⟨path, number, 0⟩ }
      define path (number + 1) (sheet.define body) shapes

/-- The configuration and the sheet of a document. -/
def load (text path : String) : Except Error (Config × Sheet) :=
  match shape? text with
  | none => .error .malformed
  | some shape =>
    match shape.config.toConfig with
    | .error e => .error (.style e)
    | .ok config => (define path 1 .empty shape.definitions).map fun sheet => (config, sheet)

end AtomicCss.Document
