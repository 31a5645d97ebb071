/-!
# Shorthands

A shorthand sets other properties, some of which may be shorthands themselves.
-/

namespace AtomicCss

/-- Whether a property sets other properties, and whether one of those does. -/
inductive PropertyTier
  | shorthandOfShorthands
  | shorthand
  | longhand
  deriving DecidableEq, Repr

namespace Property

/-- The shorthands with the properties that they set directly. -/
def shorthands : List (String × List String) :=
  [("margin", ["margin-top", "margin-right", "margin-bottom", "margin-left"]),
   ("margin-inline", ["margin-inline-start", "margin-inline-end"]),
   ("margin-block", ["margin-block-start", "margin-block-end"]),
   ("padding", ["padding-top", "padding-right", "padding-bottom", "padding-left"]),
   ("padding-inline", ["padding-inline-start", "padding-inline-end"]),
   ("padding-block", ["padding-block-start", "padding-block-end"]),
   ("scroll-margin",
      ["scroll-margin-top", "scroll-margin-right", "scroll-margin-bottom", "scroll-margin-left"]),
   ("scroll-padding",
      ["scroll-padding-top", "scroll-padding-right", "scroll-padding-bottom",
       "scroll-padding-left"]),
   ("inset", ["top", "right", "bottom", "left"]),
   ("inset-inline", ["inset-inline-start", "inset-inline-end"]),
   ("inset-block", ["inset-block-start", "inset-block-end"]),
   ("border",
      ["border-width", "border-style", "border-color", "border-top", "border-right",
       "border-bottom", "border-left"]),
   ("border-width",
      ["border-top-width", "border-right-width", "border-bottom-width", "border-left-width"]),
   ("border-style",
      ["border-top-style", "border-right-style", "border-bottom-style", "border-left-style"]),
   ("border-color",
      ["border-top-color", "border-right-color", "border-bottom-color", "border-left-color"]),
   ("border-top", ["border-top-width", "border-top-style", "border-top-color"]),
   ("border-right", ["border-right-width", "border-right-style", "border-right-color"]),
   ("border-bottom", ["border-bottom-width", "border-bottom-style", "border-bottom-color"]),
   ("border-left", ["border-left-width", "border-left-style", "border-left-color"]),
   ("border-inline", ["border-inline-start", "border-inline-end"]),
   ("border-inline-start",
      ["border-inline-start-width", "border-inline-start-style", "border-inline-start-color"]),
   ("border-inline-end",
      ["border-inline-end-width", "border-inline-end-style", "border-inline-end-color"]),
   ("border-block", ["border-block-start", "border-block-end"]),
   ("border-block-start",
      ["border-block-start-width", "border-block-start-style", "border-block-start-color"]),
   ("border-block-end",
      ["border-block-end-width", "border-block-end-style", "border-block-end-color"]),
   ("border-radius",
      ["border-top-left-radius", "border-top-right-radius", "border-bottom-right-radius",
       "border-bottom-left-radius"]),
   ("border-image",
      ["border-image-source", "border-image-slice", "border-image-width", "border-image-outset",
       "border-image-repeat"]),
   ("outline", ["outline-width", "outline-style", "outline-color"]),
   ("background",
      ["background-color", "background-image", "background-position", "background-size",
       "background-repeat", "background-attachment", "background-clip", "background-origin"]),
   ("background-position", ["background-position-x", "background-position-y"]),
   ("font",
      ["font-style", "font-variant", "font-weight", "font-stretch", "font-size", "line-height",
       "font-family"]),
   ("flex", ["flex-grow", "flex-shrink", "flex-basis"]),
   ("flex-flow", ["flex-direction", "flex-wrap"]),
   ("gap", ["row-gap", "column-gap"]),
   ("place-content", ["align-content", "justify-content"]),
   ("place-items", ["align-items", "justify-items"]),
   ("place-self", ["align-self", "justify-self"]),
   ("overflow", ["overflow-x", "overflow-y"]),
   ("overscroll-behavior", ["overscroll-behavior-x", "overscroll-behavior-y"]),
   ("grid",
      ["grid-template", "grid-template-rows", "grid-template-columns", "grid-template-areas",
       "grid-auto-rows", "grid-auto-columns", "grid-auto-flow"]),
   ("grid-template", ["grid-template-rows", "grid-template-columns", "grid-template-areas"]),
   ("grid-area", ["grid-row-start", "grid-column-start", "grid-row-end", "grid-column-end"]),
   ("grid-row", ["grid-row-start", "grid-row-end"]),
   ("grid-column", ["grid-column-start", "grid-column-end"]),
   ("list-style", ["list-style-type", "list-style-position", "list-style-image"]),
   ("text-decoration",
      ["text-decoration-line", "text-decoration-style", "text-decoration-color",
       "text-decoration-thickness"]),
   ("transition",
      ["transition-property", "transition-duration", "transition-timing-function",
       "transition-delay", "transition-behavior"]),
   ("animation",
      ["animation-name", "animation-duration", "animation-timing-function", "animation-delay",
       "animation-iteration-count", "animation-direction", "animation-fill-mode",
       "animation-play-state"]),
   ("columns", ["column-width", "column-count"]),
   ("column-rule", ["column-rule-width", "column-rule-style", "column-rule-color"]),
   ("mask",
      ["mask-image", "mask-mode", "mask-position", "mask-size", "mask-repeat", "mask-origin",
       "mask-clip"]),
   ("container", ["container-name", "container-type"]),
   ("-webkit-text-stroke", ["-webkit-text-stroke-width", "-webkit-text-stroke-color"])]

/-- The properties that a shorthand sets directly. -/
def longhands? (name : String) : Option (List String) :=
  shorthands.lookup name

def isShorthand (name : String) : Bool :=
  (longhands? name).isSome

/-- The shorthand `s` sets `l`, directly or through other shorthands. -/
inductive Sets : String → String → Prop
  | direct {s l : String} {parts : List String} :
    longhands? s = some parts → l ∈ parts → Sets s l
  | through {s m l : String} : Sets s m → Sets m l → Sets s l

/-- Adds to `found` what the properties in `names` reach, the last of them first and each before
what it sets itself. -/
def gather : Nat → List String → List String → List String
  | 0, _, found => found
  | depth + 1, names, found =>
    names.foldr
      (fun name found =>
        if found.contains name then found
        else gather depth ((longhands? name).getD []) (found ++ [name]))
      found

/-- Everything that a shorthand sets, directly or through other shorthands. -/
def allLonghands (name : String) : List String :=
  gather shorthands.length ((longhands? name).getD []) []

def tier (name : String) : PropertyTier :=
  match longhands? name with
  | none => .longhand
  | some parts => if parts.any isShorthand then .shorthandOfShorthands else .shorthand

end Property

end AtomicCss
