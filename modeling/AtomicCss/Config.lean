import AtomicCss.Error
import AtomicCss.Text.Affix

/-!
# Configuration
-/

namespace AtomicCss

/-- What happens to shorthand properties: they stay, they are expanded into longhands, or they must
not occur together with what they set. -/
inductive ShorthandPolicy
  | accept
  | flatten
  | forbid
  deriving DecidableEq, Repr

namespace ShorthandPolicy

def name : ShorthandPolicy → String
  | accept => "accept"
  | flatten => "flatten"
  | forbid => "forbid"

/-- The policy of a name in any ASCII case. -/
def parse (text : String) : Except StyleError ShorthandPolicy :=
  let lower := String.ofList (Text.lower text.toList)
  match [accept, flatten, forbid].find? fun p => p.name == lower with
  | some policy => .ok policy
  | none => .error (.invalid "config" (.unknownPolicy lower) [])

end ShorthandPolicy

/-- What the compiler is told. `vendorPrefixed` gives vendor declarations for a property and value;
`classStart` begins every generated name. -/
structure Config where
  shorthands : ShorthandPolicy := .accept
  layers : Bool := false
  vendorPrefixed : String → String → Option String := fun _ _ => none
  isDeprecated : String → Bool := fun _ => false
  allowedProperties : List String := []
  classStart : String := "x"
  flipPhysical : Bool := false

namespace Config

/-- Generated names begin with a letter or an underscore and hold letters, digits, dashes and
underscores. -/
def isValidStart (text : List Char) : Bool :=
  match text with
  | [] => false
  | c :: _ =>
    (c.isAlpha || c == '_') && text.all fun c => c.isAlphanum || c == '_' || c == '-'

def validate (config : Config) : Except StyleError Unit :=
  if isValidStart config.classStart.toList then .ok ()
  else .error (.invalid "config" (.classStart config.classStart) [])

end Config

end AtomicCss
