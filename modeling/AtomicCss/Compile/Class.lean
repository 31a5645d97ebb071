import AtomicCss.Compile.Scope

/-!
# Compiling classes
-/

namespace AtomicCss.Context

variable (c : Context)

/-- The declarations of a class that was compiled before. -/
def included (definition : String) (site : Site) (name : String) :
    Except StyleError Declarations :=
  match c.scope.declarations.get? name with
  | some declarations => .ok declarations
  | none =>
    if c.sheet.has (.staticClass, "", name) then
      .error (.reference definition site (.staticClass name) .definedLater [])
    else
      .error <| .reference definition site (.staticClass name) .undefined <|
        Suggestion.closest name c.sheet.classNames

/-- The declarations that one part of a class stands for. -/
def declarationsOf (definition : String) (site : Site) : ClassItem → Except StyleError Declarations
  | .property name value =>
    (c.resolveValue definition site value).map fun value => [(name, value)]
  | .splice name => c.included definition site name

def compileClass (name : String) (site : Site) (items : List ClassItem) :
    Except StyleError Outcome := do
  let parts ← items.mapM (c.declarationsOf name site)
  let declarations := parts.flatten
  let (result, warnings) := (Declaration.classEntries ⟨c.config, name⟩ declarations).collect
  let entries ← result
  let styles := c.scope.styles.warn warnings
  .ok
    { rules := entries.entries.filterMap Registry.ruleOf?
      scope :=
        { c.scope with
          declarations := c.scope.declarations.put name declarations
          styles := { styles with classes := styles.classes.put name entries } } }

/-- Declares the custom property that carries a dynamic value. -/
def propertyRule (b : Binding) : NamedRule :=
  (b.customProperty,
    .block .dynamicProperty
      (braced ("@property " ++ b.customProperty) "syntax:'*';inherits:false"))

def compileDynamic (name : String) (parameters : List String)
    (properties : List (String × String)) : Except StyleError Outcome := do
  let (result, warnings) := (DynamicClass.compile ⟨c.config, name⟩ parameters properties).collect
  let compiled ← result
  let styles := c.scope.styles.warn warnings
  .ok
    { rules :=
        compiled.bindings.map propertyRule ++ compiled.entries.entries.filterMap Registry.ruleOf?
      scope :=
        { c.scope with styles := { styles with dynamics := styles.dynamics.put name compiled } } }

end AtomicCss.Context
