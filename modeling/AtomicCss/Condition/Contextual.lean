import AtomicCss.Condition.Basic

/-!
# Conditions on other elements

A contextual condition holds when another element that carries a marker class is in a state.
-/

namespace AtomicCss.Condition

def defaultMarker : String := "x-default-marker"

/-- Where the marked element stands, seen from the styled one. -/
inductive Relative
  | ancestor
  | descendant
  | siblingBefore
  | siblingAfter
  | anySibling
  deriving DecidableEq, Repr

/-- The marked element in the given state. Pseudo-elements are no states. -/
def marked (pseudo : String) (marker : Option String) : Except CssFault String := do
  match ConditionKind.ofKey? pseudo with
  | some .pseudoClass =>
    checkBalanced pseudo.toList
    .ok ("." ++ marker.getD defaultMarker ++ pseudo)
  | _ => .error (.invalidSelector pseudo .notAPseudoClass)

def contextual (relative : Relative) (pseudo : String) (marker : Option String) :
    Except CssFault String := do
  let target ← marked pseudo marker
  .ok <| match relative with
  | .ancestor => ":where(" ++ target ++ " *)"
  | .descendant => ":where(:has(" ++ target ++ "))"
  | .siblingBefore => ":where(" ++ target ++ " ~ *)"
  | .siblingAfter => ":where(:has(~ " ++ target ++ "))"
  | .anySibling => ":where(" ++ target ++ " ~ *, :has(~ " ++ target ++ "))"

end AtomicCss.Condition
