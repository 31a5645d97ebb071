import AtomicCss.Compile.Scope

/-!
# Compiling keyframes, position-try fallbacks and view transitions

Their bodies are blocks of plain declarations, sorted by property, whose digest is their name.
-/

namespace AtomicCss.Context

/-- Properties that a position-try fallback may set. -/
def positionTryProperties : List String :=
  ["position-anchor", "position-area", "inset", "inset-block", "inset-block-start",
   "inset-block-end", "inset-inline", "inset-inline-start", "inset-inline-end", "top", "right",
   "bottom", "left", "margin", "margin-top", "margin-right", "margin-bottom", "margin-left",
   "margin-block", "margin-block-start", "margin-block-end", "margin-inline",
   "margin-inline-start", "margin-inline-end", "width", "height", "min-width", "min-height",
   "max-width", "max-height", "block-size", "inline-size", "min-block-size", "min-inline-size",
   "max-block-size", "max-inline-size", "align-self", "justify-self", "place-self"]

variable (c : Context)

/-- A normalized declaration of a block, under its property. -/
def plainDeclaration (definition : String) (site : Site) (item : String × Value) :
    Processing (String × String) := do
  let property := Property.dashCase item.1
  validateProperty c.config definition property
  let value ← .ofExcept (c.resolveValue definition site item.2)
  let isPlain :=
    match value with
    | .map _ | .unset => false
    | _ => true
  .require isPlain (.invalid definition (.notAPlainValue property) [])
  let normalized ← .ofCss (Value.normalizeLeaf property value)
  checkVendors c.config definition property normalized
  pure (property, normalized.declarations property)

/-- The declarations of a block, the last one of each property, sorted by property. -/
def plainBlock (definition : String) (site : Site) (declarations : Declarations) :
    Processing String := do
  let found ← declarations.mapM (c.plainDeclaration definition site)
  let sorted := (Keyed.putAll [] found).mergeSort fun a b => (compare a.1 b.1).isLE
  pure (String.intercalate ";" (sorted.map Prod.snd))

/-- The selectors of a frame in lower case, without blanks around their commas. -/
def frameSelector (selector : String) : String :=
  let parts := (Text.splitAt ',' selector.toList).map fun part => Text.lower (Text.trim part)
  String.ofList (Text.joinWith ',' parts)

/-- A rule under a generated name, with the scope in which the name is known. -/
def named (warnings : List Warning) (rule : NamedRule) (remember : Styles → Styles) : Outcome where
  rules := [rule]
  scope := { c.scope with styles := remember (c.scope.styles.warn warnings) }

def compileKeyframes (name : String) (site : Site) (frames : List (String × Declarations)) :
    Except StyleError Outcome := do
  let blocks : Processing (List String) := frames.mapM fun (selector, declarations) => do
    let block ← c.plainBlock name site declarations
    pure (braced (frameSelector selector) block)
  let (result, warnings) := blocks.collect
  let body := String.join (← result)
  let animation := Naming.contentName c.config.classStart body ++ "-B"
  .ok <| c.named warnings (animation, .block .keyframes (braced ("@keyframes " ++ animation) body))
    fun styles => { styles with keyframes := styles.keyframes.put name animation }

def compilePositionTry (name : String) (site : Site) (declarations : Declarations) :
    Except StyleError Outcome := do
  let properties := declarations.map fun item => Property.dashCase item.1
  match properties.find? fun p => !positionTryProperties.contains p with
  | some property => .error (.invalid name (.notForPositionTry property) [])
  | none => do
    let (result, warnings) := (c.plainBlock name site declarations).collect
    let body ← result
    let ident := "--" ++ Naming.contentName c.config.classStart body
    .ok <| c.named warnings (ident, .block .positionTry (braced ("@position-try " ++ ident) body))
      fun styles => { styles with positionTries := styles.positionTries.put name ident }

/-- The block of one part of a view transition. -/
def transitionPart (definition : String) (site : Site) (part : String × Declarations) :
    Processing (String × String) := do
  .require (transitionParts.contains part.1)
    (.invalid definition (.unknownTransitionPart part.1) [])
  let block ← c.plainBlock definition site part.2
  pure (part.1, block)

/-- The parts that are there, in the order of the rules; of a repeated part the last counts. -/
def orderedParts (parts : List (String × String)) : List (String × String) :=
  let last := Keyed.putAll [] parts
  transitionParts.filterMap fun part => (Keyed.get? last part).map fun block => (part, block)

def compileViewTransition (name : String) (site : Site) (parts : List (String × Declarations)) :
    Except StyleError Outcome := do
  let (result, warnings) := (Processing.collect (parts.mapM (c.transitionPart name site)))
  let parts := orderedParts (← result)
  let identity := String.join (parts.map fun (part, block) => braced part block)
  let className := Naming.contentName c.config.classStart ("view-transition:" ++ identity)
  let css := String.join <| parts.map fun (part, block) =>
    braced ("::view-transition-" ++ part ++ "(*." ++ className ++ ")") block
  .ok <| c.named warnings (className, .block .viewTransition css)
    fun styles => { styles with viewTransitions := styles.viewTransitions.put name className }

end AtomicCss.Context
