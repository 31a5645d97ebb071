import AtomicCss.Keyed
import AtomicCss.Naming

/-!
# What a class consists of

A class maps keys, one per property and pseudo-element, to slots. A slot holds one atomic entry, or
a bundle of entries under different conditions.
-/

namespace AtomicCss

/-- One atomic rule, or the marker that unsets a property. The suffix is the whole of what follows
the class in the selector. -/
structure Entry where
  className : Option String
  property : String
  value : String
  suffix : Option String
  pseudoElement : Option String
  atRule : Option String
  ltr : String
  rtl : Option String
  priority : Nat
  deriving DecidableEq, Repr

namespace Entry

/-- Markers contribute no class; they only defeat earlier values. -/
def isUnset (e : Entry) : Bool :=
  e.className.isNone

/-- The text behind the class name in the selector. -/
def selector (e : Entry) : String :=
  e.suffix.getD ""

end Entry

/-- Entries by the condition under which they were written. -/
abbrev Bundle := Keyed String Entry

inductive Slot
  | atomic (entry : Entry)
  | bundle (entries : Bundle)
  deriving DecidableEq, Repr

def Slot.entries : Slot → List Entry
  | atomic entry => [entry]
  | bundle entries => entries.map Prod.snd

abbrev ClassEntries := Keyed String Slot

def ClassEntries.entries (m : ClassEntries) : List Entry :=
  m.flatMap fun slot => slot.2.entries

/-- A property that takes its value from a parameter through a custom property. -/
structure Binding where
  property : String
  parameter : String
  customProperty : String
  deriving DecidableEq, Repr

/-- A class whose values arrive as arguments. -/
structure DynamicClass where
  parameters : List String
  bindings : List Binding
  entries : ClassEntries
  deriving DecidableEq, Repr

end AtomicCss
