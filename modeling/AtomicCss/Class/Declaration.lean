import AtomicCss.Class.Expansion
import AtomicCss.Class.Rule
import AtomicCss.Validation
import AtomicCss.Value.Normalize

/-!
# From declarations to slots

A property has a plain value, or a map of conditions that may be nested. Nested conditions are
flattened first; of leaves under the same condition the one written last counts. A key such as
`::before` holds a group of properties for that pseudo-element.
-/

namespace AtomicCss

open Value (normalizeLeaf)

/-- What surrounds a declaration: the configuration and the name of the definition. -/
structure Setting where
  config : Config
  definition : String

def beginsCondition (key : String) : Bool :=
  match key.toList with
  | c :: _ => c == ':' || c == '@'
  | [] => false

namespace Declaration

/-- The declarations that a normalized one stands for under the shorthand policy. -/
def underPolicy (config : Config) (property : String) (value : Normalized) :
    List (String × Normalized) :=
  if config.shorthands = .flatten && Property.isShorthand property then
    match value.single?.bind (Expansion.expand? property) with
    | some parts => parts.map fun part => (part.1, ⟨[part.2]⟩)
    | none => [(property, value)]
  else [(property, value)]

/-- The properties that an unset applies to under the shorthand policy. -/
def unsetTargets (config : Config) (property : String) : List String :=
  if config.shorthands = .flatten then (Expansion.targets? property).getD [property]
  else [property]

/-- The entries of a property for a plain value under a condition. -/
def entries (setting : Setting) (property : String) (suffix atRule : Option String) :
    Value → Processing (List Entry)
  | .unset =>
    pure ((unsetTargets setting.config property).map fun target => .unset target suffix atRule)
  | value => do
    let normalized ← .ofCss (normalizeLeaf property value)
    checkVendors setting.config setting.definition property normalized
    pure <| (underPolicy setting.config property normalized).map fun part =>
      .build setting.config part.1 part.2 suffix atRule

/-- The slots of a property with a plain value. -/
def plain (setting : Setting) (property : String) (pseudoElement : Option String)
    (value : Value) : Processing (List (String × Slot)) := do
  let built ← entries setting property pseudoElement none value
  pure (built.map fun e => (Naming.slotKey e.property pseudoElement, .atomic e))

/-- A value at the end of a path of conditions, with the condition as composed from the keys. -/
structure Leaf where
  condition : String
  value : Value

/-- Puts a key behind a condition. An at-rule goes in front of the suffix. -/
def compose (parent child : String) : Except CssFault String :=
  if child.toList.head? = some '@' && !parent.isEmpty then
    (Condition.parse parent).map fun c => c.atRule.getD "" ++ child ++ c.suffix.getD ""
  else .ok (Condition.join parent child)

mutual

/-- The leaves below a key, each with the canonical text of its condition. -/
def leavesOf (definition property key condition : String) :
    Value → Except StyleError (List (String × Leaf))
  | .map entries =>
    if isConditionMap entries then leavesIn definition property condition entries
    else .error (.invalid definition (.propertyGroupUnderCondition key property) [])
  | value =>
    match Condition.parse condition with
    | .ok c => .ok [(c.key, ⟨condition, value⟩)]
    | .error fault => .error (.css fault)

/-- The leaves of a map in written order, depth first. -/
def leavesIn (definition property parent : String) :
    List (String × Value) → Except StyleError (List (String × Leaf))
  | [] => .ok []
  | (key, value) :: rest =>
    if (ConditionKind.ofKey? key).isNone then
      .error (.invalid definition (.notACondition key property) [])
    else
      match compose parent key with
      | .error fault => .error (.css fault)
      | .ok condition => do
        let leaves ← leavesOf definition property key condition value
        let more ← leavesIn definition property parent rest
        .ok (leaves ++ more)

end

/-- The leaves of a map of conditions. One that repeats a condition takes the place of the earlier
one, at the end. -/
def flatten (definition property : String) (map : List (String × Value)) :
    Except StyleError (List Leaf) :=
  (leavesIn definition property "" map).map fun leaves =>
    (leaves.foldl (fun flat leaf => Keyed.renew flat leaf.1 leaf.2) []).map Prod.snd

/-- The suffix behind a pseudo-element's. -/
def suffixBehind (pseudoElement suffix : Option String) : Option String :=
  match pseudoElement, suffix with
  | some pseudo, some s => some (pseudo ++ s)
  | some pseudo, none => some pseudo
  | none, s => s

/-- The entries of a leaf, under the key that they have in their bundle. -/
def leafEntries (setting : Setting) (property : String) (pseudoElement : Option String)
    (leaf : Leaf) : Processing (List (String × Entry)) := do
  let condition ← .ofCss (Condition.parse leaf.condition)
  let suffix := suffixBehind pseudoElement condition.suffix
  let key := if leaf.condition.isEmpty then defaultKey else leaf.condition
  let built ← entries setting property suffix condition.atRule leaf.value
  pure (built.map fun e => (key, e))

/-- One bundle per property, with the entries in the order in which they come. -/
def bundled (items : List (String × Entry)) : Keyed String Bundle :=
  items.foldl
    (fun bundles item => Keyed.update bundles item.2.property [] fun b => Keyed.put b item.1 item.2)
    []

/-- The slots of a property with a map of conditions. -/
def conditional (setting : Setting) (property : String) (pseudoElement : Option String)
    (map : List (String × Value)) : Processing (List (String × Slot)) := do
  let leaves ← .ofExcept (flatten setting.definition property map)
  let items ← leaves.mapM (leafEntries setting property pseudoElement)
  pure <| (bundled items.flatten).map fun (longhand, bundle) =>
    (Naming.slotKey longhand pseudoElement, .bundle bundle)

/-- The slots of an accepted property. -/
def property (setting : Setting) (name : String) (pseudoElement : Option String)
    (value : Value) : Processing (List (String × Slot)) := do
  .require (!beginsCondition name) (.invalid setting.definition (.conditionAsProperty name) [])
  validateProperty setting.config setting.definition name
  match value with
  | .map entries =>
    if isConditionMap entries then conditional setting name pseudoElement entries
    else .fail (.invalid setting.definition (.propertyGroup name) [])
  | value => plain setting name pseudoElement value

/-- Under the forbidding policy a shorthand must not stand beside what it sets. -/
def checkPolicy (setting : Setting) (declarations : Declarations) : Processing Unit :=
  if setting.config.shorthands = .forbid then
    let names := (declarations.map Prod.fst).filter fun key => !beginsCondition key
    .ofExcept (Expansion.checkForbidden setting.definition (names.map Property.dashCase))
  else pure ()

/-- The slots of one property of a pseudo-element. -/
def inPseudoElement (setting : Setting) (pseudoElement : String) (item : String × Value) :
    Processing (List (String × Slot)) := do
  .require (ConditionKind.ofKey? item.1).isNone
    (.invalid setting.definition (.conditionInPseudoElement item.1 pseudoElement) [])
  property setting (Property.dashCase item.1) (some pseudoElement) item.2

/-- The slots of a pseudo-element's group of properties. -/
def pseudoElement (setting : Setting) (key : String) (value : Value) :
    Processing (List (String × Slot)) := do
  .require (ConditionKind.ofKey? key == some .pseudoElement)
    (.invalid setting.definition (.notAPseudoElement key) [])
  let _ ← .ofCss (Condition.parse key)
  match value with
  | .map group =>
    checkPolicy setting group
    let slots ← group.mapM (inPseudoElement setting key)
    pure slots.flatten
  | _ => .fail (.invalid setting.definition (.pseudoElementWithoutMap key) [])

/-- The slots of one declaration of a class. -/
def slots (setting : Setting) (item : String × Value) : Processing (List (String × Slot)) :=
  if ConditionKind.ofKey? item.1 == some .pseudoElement then pseudoElement setting item.1 item.2
  else property setting (Property.dashCase item.1) none item.2

/-- The entries of a class. A later declaration takes the place of an earlier one with the same
key. -/
def classEntries (setting : Setting) (declarations : Declarations) : Processing ClassEntries := do
  checkPolicy setting declarations
  let found ← declarations.mapM (slots setting)
  pure (Keyed.putAll [] found.flatten)

end Declaration

end AtomicCss
