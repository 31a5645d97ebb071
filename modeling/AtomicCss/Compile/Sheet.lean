import AtomicCss.Compile.Block
import AtomicCss.Compile.Class
import AtomicCss.Compile.Variable

/-!
# Compiling a sheet

The rules of a definition are registered after all of it has compiled, so a definition that fails
leaves nothing behind. The registry may hold rules of other sheets; the stylesheet then covers
them as well.
-/

namespace AtomicCss

def Context.compile (c : Context) (d : Definition) : Except StyleError Outcome :=
  match d.body with
  | .staticClass name items => c.compileClass name d.site items
  | .dynamicClass name parameters properties => c.compileDynamic name parameters properties
  | .vars space vars => c.compileVars space d.site vars
  | .consts space values =>
    (c.compileConsts space d.site c.scope values).map fun scope => ⟨[], scope⟩
  | .theme space name overrides => c.compileTheme space name d.site overrides
  | .keyframes name frames => c.compileKeyframes name d.site frames
  | .positionTry name declarations => c.compilePositionTry name d.site declarations
  | .viewTransition name parts => c.compileViewTransition name d.site parts
  | .marker space name =>
    let styles := c.scope.styles
    let className := Naming.markerClass c.config.classStart space name
    let markers := styles.markers.put (qualified space name) className
    .ok ⟨[], { c.scope with styles := { styles with markers } }⟩

namespace Sheet

/-- Compiles definitions one after the other. The registry is returned also on failure. -/
def compileFrom (config : Config) (sheet : Sheet) :
    Registry → Scope → List Definition → Registry × Except StyleError Scope
  | registry, scope, [] => (registry, .ok scope)
  | registry, scope, d :: ds =>
    match Context.compile ⟨config, sheet, scope⟩ d with
    | .error e => (registry, .error e)
    | .ok outcome => compileFrom config sheet (registry.insertAll outcome.rules) outcome.scope ds

/-- What can be said against a sheet before it is compiled. -/
def check (config : Config) (sheet : Sheet) : Except StyleError Unit := do
  config.validate
  match sheet.repeated? with
  | some d => .error (.invalid d.body.label (.definedAgain d.site) [])
  | none => .ok ()

/-- Compiles a sheet into a registry that may hold rules already. -/
def compileInto (config : Config) (sheet : Sheet) (registry : Registry) :
    Registry × Except StyleError Styles :=
  match check config sheet with
  | .error e => (registry, .error e)
  | .ok () =>
    let (registry, result) := compileFrom config sheet registry {} sheet.definitions
    (registry, result.map fun scope =>
      { scope.styles with rules := Stylesheet.emit registry config.layers })

def compile (config : Config) (sheet : Sheet) : Except StyleError Styles :=
  (compileInto config sheet .empty).2

end Sheet

end AtomicCss
