import AtomicCss.Location
import AtomicCss.Value.Basic

/-!
# What can be wrong with a value or a selector
-/

namespace AtomicCss

/-- What makes a selector unusable. -/
inductive SelectorProblem
  | unexpectedParenthesis
  | missingParenthesis
  | emptyAtRule
  | notAPseudoClass
  deriving DecidableEq, Repr

def SelectorProblem.message : SelectorProblem → String
  | .unexpectedParenthesis => "unexpected ')'"
  | .missingParenthesis => "missing ')'"
  | .emptyAtRule => "empty at-rule"
  | .notAPseudoClass => "contextual selectors take a pseudo-class such as ':hover'"

/-- What makes a value unusable for normalization. -/
inductive ValueProblem
  | notFinite (text : String)
  | unresolved (target : Reference)
  | notALeaf (shown : String)
  | emptyList
  deriving DecidableEq, Repr

/-- The offending value as messages show it. -/
def ValueProblem.value : ValueProblem → String
  | .notFinite text => text
  | .unresolved target => target.text
  | .notALeaf shown => shown
  | .emptyList => "[]"

def ValueProblem.message : ValueProblem → String
  | .notFinite _ => "number is not finite"
  | .unresolved _ => "reference was not resolved before normalization"
  | .notALeaf _ => "expected a scalar or a fallback list"
  | .emptyList => "fallback list is empty"

inductive CssFault
  | unterminatedString (input : String) (location : Location)
  | unbalancedParentheses (input : String) (location : Location)
  | invalidNumber (number : String) (location : Location)
  | invalidSelector (selector : String) (problem : SelectorProblem)
  | invalidValue (property : String) (problem : ValueProblem)
  deriving DecidableEq, Repr

namespace CssFault

def location? : CssFault → Option Location
  | unterminatedString _ location => some location
  | unbalancedParentheses _ location => some location
  | invalidNumber _ location => some location
  | invalidSelector .. => none
  | invalidValue .. => none

def message : CssFault → String
  | unterminatedString input location => s!"Unterminated string in '{input}' at {location.text}"
  | unbalancedParentheses input location =>
    s!"Unbalanced parentheses in '{input}' at {location.text}"
  | invalidNumber number location => s!"Invalid number '{number}' at {location.text}"
  | invalidSelector selector problem => s!"Invalid selector '{selector}': {problem.message}"
  | invalidValue property problem =>
    s!"Invalid value '{problem.value}' for property '{property}': {problem.message}"

end CssFault

end AtomicCss
