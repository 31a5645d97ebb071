import AtomicCss.Class.Declaration

/-!
# Dynamic classes

The properties of a dynamic class read custom properties, which an inline style sets from the
arguments.
-/

namespace AtomicCss.DynamicClass

/-- The first parameter that occurs again. -/
def repeated? (seen : List String) : List String → Option String
  | [] => none
  | p :: ps => if seen.contains p then some p else repeated? (p :: seen) ps

/-- The binding and the entry of one property. -/
def bind (setting : Setting) (parameters : List String) (item : String × String) :
    Processing (Binding × Entry) := do
  let property := Property.dashCase item.1
  let invalid (problem : Problem) : StyleError := .invalid setting.definition problem []
  .require (parameters.contains item.2) (invalid (.undeclaredParameter property item.2))
  .require (!beginsCondition property) (invalid (.boundCondition property))
  validateProperty setting.config setting.definition property
  let custom := Naming.dynamicName setting.config.classStart property
  pure (⟨property, item.2, custom⟩,
    .build setting.config property ⟨["var(" ++ custom ++ ")"]⟩ none none)

/-- A dynamic class from its parameters and the parameter of each property. -/
def compile (setting : Setting) (parameters : List String) (properties : List (String × String)) :
    Processing DynamicClass := do
  let invalid (problem : Problem) : StyleError := .invalid setting.definition problem []
  .require (!parameters.isEmpty) (invalid .noParameters)
  match repeated? [] parameters with
  | some parameter => .fail (invalid (.repeatedParameter parameter))
  | none => pure ()
  .require (!properties.isEmpty) (invalid .noBoundProperties)
  if setting.config.shorthands = .forbid then
    .ofExcept <| Expansion.checkForbidden setting.definition <|
      properties.map fun item => Property.dashCase item.1
  let bound ← properties.mapM (bind setting parameters)
  pure
    { parameters
      bindings := bound.map Prod.fst
      entries :=
        Keyed.putAll [] <| bound.map fun (_, e) => (Naming.slotKey e.property none, .atomic e) }

end AtomicCss.DynamicClass
