import AtomicCss.Class.Rule
import AtomicCss.Registry

/-!
# Writing out a registry

Rules are written kind by kind. Atomic rules are sorted by their keys, each followed by its
right-to-left twin; the others keep the order in which they came.
-/

namespace AtomicCss

/-- A rule as written out. -/
structure CssRule where
  text : String
  priority : Nat
  deriving DecidableEq, Repr

namespace Stylesheet

/-- Declares the order of the layers, ahead of the atomic rules in them. -/
def layerOrder : CssRule := ⟨"@layer priority1, priority2, priority3;", 0⟩

def orderKey (r : NamedRule) : RuleKey :=
  ⟨r.2.priority, r.2.property, r.2.selector, r.1⟩

def ofKind (kind : RuleKind) (rules : List NamedRule) : List NamedRule :=
  rules.filter fun r => r.2.kind = kind

def blocks (kind : RuleKind) (rules : List NamedRule) : List CssRule :=
  (ofKind kind rules).map fun r => ⟨r.2.css, r.2.priority⟩

def sortedAtomic (rules : List NamedRule) : List NamedRule :=
  (ofKind .atomic rules).mergeSort fun a b => (orderKey a).le (orderKey b)

/-- An atomic rule and its twin, each in the rule's layer if layers are on. -/
def atomicRules (layers : Bool) (r : NamedRule) : List CssRule :=
  (r.2.css :: r.2.rtl.toList).map fun text =>
    ⟨if layers then braced s!"@layer priority{r.2.layer}" text else text, r.2.priority⟩

def atomicPart (layers : Bool) (rules : List NamedRule) : List CssRule :=
  let sorted := sortedAtomic rules
  (if layers && !sorted.isEmpty then [layerOrder] else []) ++ sorted.flatMap (atomicRules layers)

def kindsBeforeAtomic : List RuleKind :=
  [.typedProperty, .dynamicProperty, .keyframes, .rootVars, .positionTry, .viewTransition]

/-- All rules of a registry in the order of the stylesheet. -/
def emit (registry : Registry) (layers : Bool) : List CssRule :=
  kindsBeforeAtomic.flatMap (fun kind => blocks kind registry.rules)
    ++ atomicPart layers registry.rules ++ blocks .theme registry.rules

end Stylesheet

end AtomicCss
