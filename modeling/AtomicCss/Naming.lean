import AtomicCss.Digest
import AtomicCss.Value.Basic

/-!
# Generated names

Every generated name ends in a digest of what it stands for, so equal content gets equal names
wherever it is written.
-/

namespace AtomicCss.Naming

/-- Ends every field of a digested text; it occurs in no property, value or selector. -/
def delimiter : Char := '\x1f'

/-- The text whose digest names an atomic rule. -/
def atomicText (property value : String) (suffix pseudoElement atRule : Option String) : String :=
  let fields := [property, value, suffix.getD "", pseudoElement.getD "", atRule.getD ""]
  String.join (fields.map fun field => field.push delimiter)

def contentName (start body : String) : String :=
  start ++ Digest.short body

/-- The class name of an atomic rule. -/
def atomicClass (start property value : String) (suffix pseudoElement atRule : Option String) :
    String :=
  contentName start (atomicText property value suffix pseudoElement atRule)

/-- The custom property of a variable. -/
def varName (start space name : String) : String :=
  "--" ++ contentName start (qualified space name)

/-- The class name of a marker. -/
def markerClass (start space name : String) : String :=
  contentName start ("marker:" ++ qualified space name)

/-- The custom property that carries the value of a dynamic property. -/
def dynamicName (start property : String) : String :=
  "--" ++ start ++ "-" ++ property

/-- The key of a property inside a class, scoped by a pseudo-element if there is one. -/
def slotKey (property : String) (pseudoElement : Option String) : String :=
  match pseudoElement with
  | some pseudo => property ++ ":" ++ pseudo
  | none => property

end AtomicCss.Naming
