import AtomicCss.Class.Dynamic
import AtomicCss.Definition
import AtomicCss.Stylesheet

/-!
# What is known while a sheet is compiled

Definitions are compiled in order, and a reference leads only to what was compiled before.
-/

namespace AtomicCss

/-- A compiled sheet: the entries of classes, the generated names, and the rules. Names with a
namespace are looked up in their qualified form. -/
structure Styles where
  classes : Keyed String ClassEntries := []
  dynamics : Keyed String DynamicClass := []
  themes : Keyed String String := []
  vars : Keyed String String := []
  keyframes : Keyed String String := []
  positionTries : Keyed String String := []
  viewTransitions : Keyed String String := []
  markers : Keyed String String := []
  rules : List CssRule := []
  warnings : List Warning := []

namespace Styles

/-- The stylesheet, one rule a line. -/
def css (styles : Styles) : String :=
  String.intercalate "\n" (styles.rules.map CssRule.text)

def warn (styles : Styles) (warnings : List Warning) : Styles :=
  { styles with warnings := styles.warnings ++ warnings }

end Styles

/-- What the definitions so far have left for the next ones. -/
structure Scope where
  consts : Keyed String Scalar := []
  varGroups : Keyed String (List String) := []
  declarations : Keyed String Declarations := []
  styles : Styles := {}

/-- What compiling a definition gives: rules to register, and the scope behind it. -/
structure Outcome where
  rules : List NamedRule
  scope : Scope

/-- What surrounds a definition: the configuration, the sheet, and what was compiled before. -/
structure Context where
  config : Config
  sheet : Sheet
  scope : Scope

namespace Context

/-- What a reference stands for, if its target was compiled before. -/
def find? (c : Context) (r : Reference) : Option Scalar :=
  let name := r.qualifiedName
  match r.kind with
  | .var => (c.scope.styles.vars.get? name).map fun var => .text ("var(" ++ var ++ ")")
  | .const => c.scope.consts.get? name
  | .keyframes => (c.scope.styles.keyframes.get? name).map .text
  | .positionTry => (c.scope.styles.positionTries.get? name).map .text
  | .viewTransition => (c.scope.styles.viewTransitions.get? name).map .text
  | .marker => (c.scope.styles.markers.get? name).map .text

variable (c : Context) (definition : String) (site : Site)

def resolveReference (r : Reference) : Except StyleError Scalar :=
  match c.find? r with
  | some value => .ok value
  | none =>
    if c.sheet.defines r then .error (.reference definition site (.value r) .definedLater [])
    else
      .error <| .reference definition site (.value r) .undefined <|
        Suggestion.closest r.qualifiedName (c.sheet.names r.kind)

def resolveScalar : Scalar → Except StyleError Scalar
  | .ref r => resolveReference c definition site r
  | value => .ok value

mutual

/-- The value with what its references stand for. -/
def resolveValue : Value → Except StyleError Value
  | .unset => .ok .unset
  | .scalar value => (resolveScalar c definition site value).map .scalar
  | .map entries => (resolveEntries entries).map .map
  | .fallback values => (values.mapM (resolveScalar c definition site)).map .fallback
  | .firstThatWorks values => (values.mapM (resolveScalar c definition site)).map .firstThatWorks

def resolveEntries : List (String × Value) → Except StyleError (List (String × Value))
  | [] => .ok []
  | (key, value) :: rest => do
    let value ← resolveValue value
    let rest ← resolveEntries rest
    .ok ((key, value) :: rest)

end

end Context

end AtomicCss
