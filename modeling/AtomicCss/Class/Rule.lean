import AtomicCss.Class.Entry
import AtomicCss.Class.Direction
import AtomicCss.Condition.Basic
import AtomicCss.Config
import AtomicCss.Priority

/-!
# Atomic entries

An entry sets one property to one value under one condition. Its class name is a digest of exactly
these, so the same declaration gets the same class wherever it is written.
-/

namespace AtomicCss

/-- A block with something in front of its braces. -/
def braced (head body : String) : String :=
  head ++ "\x7b" ++ body ++ "\x7d"

/-- A rule inside its at-rules, the first of them outermost. -/
def wrapAtRules (atRule : Option String) (rule : String) : String :=
  match atRule with
  | some text => (Condition.atRules text).foldr braced rule
  | none => rule

def nonempty? (text : Option String) : Option String :=
  text.filter fun s => !s.isEmpty

def pseudoElementOf? (suffix : Option String) : Option String :=
  suffix.bind fun s => (Condition.splitPseudoElement s).1

namespace Entry

/-- The marker that unsets a property under a condition. -/
def unset (property : String) (suffix atRule : Option String) : Entry where
  className := none
  property
  value := ""
  suffix := nonempty? suffix
  pseudoElement := pseudoElementOf? (nonempty? suffix)
  atRule
  ltr := ""
  rtl := none
  priority := 0

/-- The declarations of a block; what the configuration adds for vendors stands before each. -/
def declarationBlock (config : Config) (property : String) (values : List String) : String :=
  String.intercalate ";" <| values.flatMap fun value =>
    (config.vendorPrefixed property value).toList ++ [property ++ ":" ++ value]

/-- The selector of a class. Inside at-rules the class is doubled, which makes the rule more
specific, unless layers order the rules. -/
def selectorText (config : Config) (className : String) (suffix atRule : Option String) : String :=
  let once := "." ++ className
  (if atRule.isSome && !config.layers then once ++ once else once) ++ suffix.getD ""

/-- The entry that sets a property to a value under a condition. -/
def build (config : Config) (property : String) (value : Normalized)
    (suffix atRule : Option String) : Entry :=
  let suffix := nonempty? suffix
  let atRule := nonempty? atRule
  let pseudoElement := pseudoElementOf? suffix
  let className :=
    Naming.atomicClass config.classStart property value.identity suffix pseudoElement atRule
  let selector := selectorText config className suffix atRule
  let rule (start property : String) (values : List String) : String :=
    wrapAtRules atRule (braced (start ++ selector) (declarationBlock config property values))
  { className := some className
    property
    value := value.identity
    suffix
    pseudoElement
    atRule
    ltr := rule "" property (value.values.map (Direction.ltr property))
    rtl :=
      (Direction.rtlValues? config.flipPhysical property value.values).map
        fun (rtlProperty, rtlValues) => rule "html[dir=\"rtl\"] " rtlProperty rtlValues
    priority := AtomicCss.priority property suffix atRule }

end Entry

end AtomicCss
