import AtomicCss.Compile.Scope

/-!
# Merging classes

References to classes are merged from left to right. The last one that defines a key wins; bundles
are merged condition by condition, and an unset removes what came before it.
-/

namespace AtomicCss

inductive ClassRef
  | staticClass (name : String)
  | dynamic (name : String) (arguments : List Scalar)
  | theme (space name : String)
  | skipped
  deriving Repr

/-- What is merged so far: slots by key, theme classes by namespace, and the values of custom
properties. -/
structure Merged where
  slots : ClassEntries := []
  themes : Keyed String String := []
  inline : Keyed String String := []

/-- Class names separated by spaces, and the inline style if there is one. -/
structure Resolved where
  classes : String
  style : Option String
  deriving DecidableEq, Repr

namespace Merged

/-- An entry under its condition takes the place of the earlier one, or removes it. -/
def mergeCondition (conditions : Bundle) (item : String × Entry) : Bundle :=
  if item.2.isUnset then conditions.remove item.1 else conditions.renew item.1 item.2

/-- The entries that a slot holds by condition. A single entry counts as the default. -/
def conditionsOf : Option Slot → Bundle
  | some (.bundle conditions) => conditions
  | some (.atomic entry) => [(defaultKey, entry)]
  | none => []

def mergeSlot (slots : ClassEntries) (item : String × Slot) : ClassEntries :=
  match item.2 with
  | .atomic entry =>
    if entry.isUnset then slots.remove item.1 else slots.renew item.1 (.atomic entry)
  | .bundle bundle =>
    let conditions := bundle.foldl mergeCondition (conditionsOf (slots.get? item.1))
    if conditions.isEmpty then slots.remove item.1 else slots.renew item.1 (.bundle conditions)

def mergeEntries (m : Merged) (entries : ClassEntries) : Merged :=
  { m with slots := entries.foldl mergeSlot m.slots }

/-- The text of an argument. Numbers get the unit of the property. -/
def argumentText? (property : String) : Scalar → Option String
  | .text text => some (Text.trimmed text)
  | .number x =>
    if !Decimal.isFinite x then none
    else
      let text := String.ofList (Decimal.format x)
      if Property.isTime property then some (text ++ "ms")
      else if Property.isLength property && !(x == 0.0) then some (text ++ "px")
      else some text
  | .ref _ => none

/-- The argument that is given for a parameter. -/
def argumentFor? (parameter : String) : List String → List Scalar → Option Scalar
  | p :: ps, a :: as => if p = parameter then some a else argumentFor? parameter ps as
  | _, _ => none

/-- Sets the custom properties of the bindings from the arguments. -/
def bindArguments (name : String) (parameters : List String) (arguments : List Scalar) :
    Keyed String String → List Binding → Except StyleError (Keyed String String)
  | inline, [] => .ok inline
  | inline, b :: bs =>
    match argumentFor? b.parameter parameters arguments with
    | none => bindArguments name parameters arguments inline bs
    | some argument =>
      match argumentText? b.property argument with
      | none => .error (.resolve name (.notAnArgument b.parameter))
      | some text =>
        bindArguments name parameters arguments (inline.renew b.customProperty text) bs

/-- Merges one more reference. -/
def apply (styles : Styles) (m : Merged) : ClassRef → Except StyleError Merged
  | .skipped => .ok m
  | .staticClass name =>
    match styles.classes.get? name with
    | some entries => .ok (m.mergeEntries entries)
    | none =>
      let problem :=
        if (styles.dynamics.get? name).isSome then ResolveProblem.dynamicWithoutArguments
        else .unknownClass
      .error (.resolve name problem)
  | .dynamic name arguments =>
    match styles.dynamics.get? name with
    | none => .error (.resolve name .unknownDynamic)
    | some dynamic =>
      if arguments.length ≠ dynamic.parameters.length then
        .error (.resolve name (.argumentCount dynamic.parameters.length arguments.length))
      else
        (bindArguments name dynamic.parameters arguments m.inline dynamic.bindings).map
          fun inline => { m.mergeEntries dynamic.entries with inline }
  | .theme space name =>
    let label := qualified space name
    match styles.themes.get? label with
    | none => .error (.resolve label .unknownTheme)
    | some className => .ok { m with themes := m.themes.renew space className }

/-- The class names of the slots, then those of the themes. -/
def classNames (m : Merged) : List String :=
  (m.slots.entries.filterMap Entry.className) ++ m.themes.map Prod.snd

def resolved (m : Merged) : Resolved where
  classes := String.intercalate " " m.classNames
  style :=
    if m.inline.isEmpty then none
    else some (String.intercalate "; " (m.inline.map fun (name, value) => name ++ ": " ++ value))

end Merged

/-- Merges references into class names and an inline style. -/
def Styles.resolve (styles : Styles) (refs : List ClassRef) : Except StyleError Resolved :=
  (refs.foldlM (Merged.apply styles) {}).map Merged.resolved

end AtomicCss
