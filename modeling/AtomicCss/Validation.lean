import AtomicCss.Processing
import AtomicCss.Property.Name
import AtomicCss.Suggestion

/-!
# Which properties are accepted
-/

namespace AtomicCss

/-- Custom properties, known properties, configured ones, and vendors' spellings of known ones. -/
def Config.accepts (config : Config) (property : String) : Bool :=
  Property.isCustom property || Property.isKnown property
    || config.allowedProperties.contains property
    || ((Property.unprefixed? property).map Property.isKnown).getD false

/-- Fails for a property that is not accepted and warns about a deprecated one. -/
def validateProperty (config : Config) (definition property : String) : Processing Unit :=
  if !config.accepts property then
    .fail (.invalid definition (.unknownProperty property) (Suggestion.properties property))
  else if config.isDeprecated property then .warn ⟨definition, property, .deprecated⟩
  else pure ()

/-- Warns about a vendor's property that the configuration adds by itself. -/
def checkVendor (config : Config) (definition property value : String) : Processing Unit :=
  match Property.unprefixed? property with
  | none => pure ()
  | some standard =>
    match config.vendorPrefixed standard value with
    | none => pure ()
    | some text =>
      if Text.occursIn property.toList text.toList then
        .warn ⟨definition, property, .unnecessaryPrefix standard⟩
      else pure ()

def checkVendors (config : Config) (definition property : String) (value : Normalized) :
    Processing Unit :=
  value.values.forM (checkVendor config definition property)

end AtomicCss
