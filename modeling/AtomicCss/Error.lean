import AtomicCss.Value.Fault

/-!
# What can be wrong with a definition
-/

namespace AtomicCss

/-- Where a definition was written. -/
structure Site where
  file : String
  line : Nat
  column : Nat
  deriving DecidableEq, Repr

namespace Site

def unknown : Site := ⟨"<unknown>", 0, 0⟩

def text (s : Site) : String :=
  s!"{s.file}:{s.line}:{s.column}"

end Site

/-- The parts of a view transition, in the order of its rules. -/
def transitionParts : List String :=
  ["group", "image-pair", "old", "new"]

/-- What is wrong inside a definition or a configuration. -/
inductive Problem
  | unknownPolicy (name : String)
  | classStart (text : String)
  | unknownProperty (property : String)
  | shorthandWithLonghand (shorthand longhand : String)
  | conditionAsProperty (condition : String)
  | propertyGroup (property : String)
  | notACondition (key property : String)
  | propertyGroupUnderCondition (condition property : String)
  | notAPseudoElement (key : String)
  | pseudoElementWithoutMap (pseudoElement : String)
  | conditionInPseudoElement (condition pseudoElement : String)
  | noParameters
  | repeatedParameter (parameter : String)
  | noBoundProperties
  | undeclaredParameter (property parameter : String)
  | boundCondition (condition : String)
  | definedAgain (site : Site)
  | repeatedVar (name : String)
  | notAVarOf (name space : String)
  | notForPositionTry (property : String)
  | unknownTransitionPart (part : String)
  | notAPlainValue (property : String)
  | unsetVar
  | varWithSuffix (suffix : String)
  | varWithFallbacks
  deriving DecidableEq, Repr

def Problem.message : Problem → String
  | unknownPolicy name =>
    s!"unknown shorthand behavior '{name}' (expected accept, flatten or forbid)"
  | classStart text =>
    s!"class prefix '{text}' must start with a letter and contain only letters, digits, '-' or '_'"
  | unknownProperty property => s!"unknown CSS property '{property}'"
  | shorthandWithLonghand shorthand longhand =>
    s!"shorthand '{shorthand}' is not allowed together with '{longhand}'; use longhands only"
  | conditionAsProperty condition =>
    s!"condition '{condition}' must be nested inside a property value, not used as a property"
  | propertyGroup property =>
    s!"value of '{property}' is a nested property group; expected a value or a map of conditions"
  | notACondition key property => s!"'{key}' in the value of '{property}' is not a condition"
  | propertyGroupUnderCondition condition property =>
    s!"condition '{condition}' of '{property}' holds a property group; expected a value"
  | notAPseudoElement key => s!"'{key}' is not a pseudo-element"
  | pseudoElementWithoutMap pseudoElement => s!"'{pseudoElement}' expects a map of properties"
  | conditionInPseudoElement condition pseudoElement =>
    s!"'{condition}' inside '{pseudoElement}' must be a property; "
      ++ "put conditions on the property value"
  | noParameters => "dynamic class needs at least one parameter"
  | repeatedParameter parameter => s!"parameter '{parameter}' is declared more than once"
  | noBoundProperties => "dynamic class binds no properties"
  | undeclaredParameter property parameter =>
    s!"'{property}' is bound to undeclared parameter '{parameter}'"
  | boundCondition condition =>
    s!"dynamic classes take unconditional properties only, got '{condition}'"
  | definedAgain site => s!"defined more than once (again at {site.text})"
  | repeatedVar name => s!"var '{name}' is defined more than once"
  | notAVarOf name space => s!"'{name}' is not a var of '{space}'"
  | notForPositionTry property =>
    s!"'{property}' is not allowed in @position-try; "
      ++ "use positioning, inset, margin, sizing or self-alignment properties"
  | unknownTransitionPart part =>
    "unknown view-transition part '" ++ part ++ "' (expected "
      ++ String.intercalate ", " transitionParts ++ ")"
  | notAPlainValue property => s!"'{property}' takes a plain value here"
  | unsetVar => "vars cannot be unset"
  | varWithSuffix suffix => s!"vars take at-rule conditions only, got '{suffix}'"
  | varWithFallbacks => "vars take a single value, not a fallback list"

/-- What a definition refers to. -/
inductive Target
  | value (reference : Reference)
  | staticClass (name : String)
  | varGroup (space : String)
  deriving DecidableEq, Repr

def Target.text : Target → String
  | value reference => reference.text
  | staticClass name => "class " ++ name
  | varGroup space => "vars " ++ space

/-- Why a reference leads nowhere. -/
inductive ReferenceProblem
  | definedLater
  | undefined
  deriving DecidableEq, Repr

def ReferenceProblem.message : ReferenceProblem → String
  | definedLater => " before its definition"
  | undefined => ", which is not defined"

/-- Why class references cannot be merged. -/
inductive ResolveProblem
  | dynamicWithoutArguments
  | unknownClass
  | unknownDynamic
  | unknownTheme
  | argumentCount (expected given : Nat)
  | notAnArgument (parameter : String)
  | malformedTheme
  | missingParenthesis
  deriving DecidableEq, Repr

def ResolveProblem.message : ResolveProblem → String
  | dynamicWithoutArguments => "dynamic class used without arguments"
  | unknownClass => "no class with this name"
  | unknownDynamic => "no dynamic class with this name"
  | unknownTheme => "no theme with this name"
  | argumentCount expected given => s!"expected {expected} arguments, got {given}"
  | notAnArgument parameter => s!"argument for '{parameter}' is not a value"
  | malformedTheme => "expected theme:namespace.name"
  | missingParenthesis => "missing ')'"

inductive StyleError
  | invalid (definition : String) (problem : Problem) (suggestions : List String)
  | reference (definition : String) (site : Site) (target : Target) (problem : ReferenceProblem)
    (suggestions : List String)
  | resolve (name : String) (problem : ResolveProblem)
  | css (fault : CssFault)
  deriving DecidableEq, Repr

namespace StyleError

def hint (suggestions : List String) : String :=
  if suggestions.isEmpty then ""
  else " (did you mean " ++ String.intercalate ", " suggestions ++ "?)"

def message : StyleError → String
  | invalid definition problem suggestions =>
    definition ++ ": " ++ problem.message ++ hint suggestions
  | reference definition site target problem suggestions =>
    s!"{site.text}: '{definition}' references {target.text}{problem.message}" ++ hint suggestions
  | resolve name problem => s!"Cannot resolve '{name}': {problem.message}"
  | css fault => fault.message

end StyleError

/-- A remark that does not stop anything. -/
inductive Remark
  | deprecated
  | unnecessaryPrefix (standard : String)
  deriving DecidableEq, Repr

structure Warning where
  definition : String
  property : String
  remark : Remark
  deriving DecidableEq, Repr

namespace Warning

def message (w : Warning) : String :=
  match w.remark with
  | .deprecated => s!"'{w.property}' is deprecated"
  | .unnecessaryPrefix standard =>
    s!"'{w.property}' is added by the configured prefixer; use '{standard}' instead"

def text (w : Warning) : String :=
  w.definition ++ ": " ++ w.message

end Warning

end AtomicCss
