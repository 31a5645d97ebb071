import AtomicCss.Error
import AtomicCss.Json.Printer

/-!
# What can be wrong with a document
-/

namespace AtomicCss.Document

/-- What is wrong with a value inside a definition. -/
inductive Problem
  | notClassNames (found : Json)
  | notAParameter (property : String)
  | notProperties (key : String) (found : Json)
  | notADescriptor
  | typedWithoutValue
  | notAList
  | boolean (value : Bool)
  | notAValue (found : Json)
  | notAScalar (found : Json)
  | notAName (key : String)
  | notQualified (key name : String)

def Problem.message : Problem → String
  | notClassNames found => s!"$include expects class names, got {found.compact}"
  | notAParameter property => s!"'{property}' must name a parameter"
  | notProperties key found => s!"'{key}' expects an object of properties, got {found.compact}"
  | notADescriptor => "$typed expects a syntax string"
  | typedWithoutValue => "typed var needs a \"value\""
  | notAList => "$first_that_works expects an array"
  | boolean value => "unexpected boolean " ++ (if value then "true" else "false")
  | notAValue found => s!"expected a value, got {found.compact}"
  | notAScalar found => s!"expected a string or number, got {found.compact}"
  | notAName key => s!"{key} expects a string"
  | notQualified key name => s!"{key} expects 'namespace.name', got '{name}'"

/-- Why a document cannot be loaded: it is not JSON of the right shape, one of its definitions
holds a value that means nothing, or its configuration is refused. -/
inductive Error
  | malformed
  | invalid (number : Nat) (problem : Problem)
  | style (error : StyleError)

def Error.message : Error → String
  | malformed => "Invalid JSON"
  | invalid number problem => s!"Definition #{number}: {problem.message}"
  | style error => error.message

end AtomicCss.Document
