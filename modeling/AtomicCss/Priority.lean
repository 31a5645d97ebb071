import AtomicCss.Property.Group
import AtomicCss.Property.Shorthand

/-!
# The order of atomic rules

A rule's priority packs its property's group, whether it has an at-rule, whether it has a suffix,
and its property's tier into one number. Rules of one priority follow in the order of their
property, selector and class texts.
-/

namespace AtomicCss

def PropertyTier.offset : PropertyTier → Nat
  | .shorthandOfShorthands => 0
  | .shorthand => 100
  | .longhand => 200

/-- Whether an optional text is there and not empty. -/
def isGiven (text : Option String) : Bool :=
  match text with
  | some s => !s.isEmpty
  | none => false

def priority (property : String) (suffix atRule : Option String) : Nat :=
  (Property.group property).rank * 10000 + (Property.tier property).offset
    + (if isGiven suffix then 300 else 0) + (if isGiven atRule then 600 else 0)

/-- What atomic rules are sorted by. -/
structure RuleKey where
  priority : Nat
  property : String
  selector : String
  className : String
  deriving DecidableEq, Repr

namespace RuleKey

/-- Texts compare by their code points, which is also the order of their UTF-8 bytes. -/
def compare (a b : RuleKey) : Ordering :=
  (Ord.compare a.priority b.priority).then <|
    (Ord.compare a.property b.property).then <|
      (Ord.compare a.selector b.selector).then (Ord.compare a.className b.className)

def le (a b : RuleKey) : Bool :=
  (compare a b).isLE

end RuleKey

end AtomicCss
