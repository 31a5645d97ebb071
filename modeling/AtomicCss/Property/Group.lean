/-!
# The known properties

Every known property belongs to a group, and the groups follow each other in the cascade.
-/

namespace AtomicCss

inductive PropertyGroup
  | layout
  | flexbox
  | grid
  | boxSize
  | boxSpacing
  | position
  | typography
  | color
  | border
  | effects
  | interactivity
  | misc
  deriving DecidableEq, Repr

namespace PropertyGroup

def all : List PropertyGroup :=
  [layout, flexbox, grid, boxSize, boxSpacing, position, typography, color, border, effects,
   interactivity, misc]

/-- The place of a group in the cascade. -/
def rank : PropertyGroup → Nat
  | layout => 0
  | flexbox => 1
  | grid => 2
  | boxSize => 3
  | boxSpacing => 4
  | position => 5
  | typography => 6
  | color => 7
  | border => 8
  | effects => 9
  | interactivity => 10
  | misc => 11

def members : PropertyGroup → List String
  | .layout =>
    ["display", "visibility", "float", "clear", "overflow", "overflow-x", "overflow-y",
     "overflow-block", "overflow-inline", "overflow-clip-margin", "contain", "content-visibility",
     "contain-intrinsic-size", "container", "container-name", "container-type", "isolation",
     "columns", "column-count", "column-width", "column-fill", "column-span", "column-rule",
     "column-rule-width", "column-rule-style", "column-rule-color", "table-layout", "caption-side",
     "empty-cells", "object-fit", "object-position", "box-decoration-break", "break-before",
     "break-after", "break-inside"]
  | .flexbox =>
    ["flex", "flex-direction", "flex-wrap", "flex-flow", "flex-grow", "flex-shrink", "flex-basis",
     "order", "justify-content", "justify-items", "justify-self", "align-content", "align-items",
     "align-self", "place-content", "place-items", "place-self", "gap", "row-gap", "column-gap"]
  | .grid =>
    ["grid", "grid-template", "grid-template-columns", "grid-template-rows", "grid-template-areas",
     "grid-area", "grid-row", "grid-row-start", "grid-row-end", "grid-column", "grid-column-start",
     "grid-column-end", "grid-auto-flow", "grid-auto-columns", "grid-auto-rows"]
  | .boxSize =>
    ["width", "height", "min-width", "min-height", "max-width", "max-height", "inline-size",
     "block-size", "min-inline-size", "max-inline-size", "min-block-size", "max-block-size",
     "box-sizing", "aspect-ratio", "field-sizing"]
  | .boxSpacing =>
    ["margin", "margin-top", "margin-right", "margin-bottom", "margin-left", "margin-inline",
     "margin-inline-start", "margin-inline-end", "margin-block", "margin-block-start",
     "margin-block-end", "padding", "padding-top", "padding-right", "padding-bottom",
     "padding-left", "padding-inline", "padding-inline-start", "padding-inline-end",
     "padding-block", "padding-block-start", "padding-block-end", "scroll-margin",
     "scroll-margin-top", "scroll-margin-right", "scroll-margin-bottom", "scroll-margin-left",
     "scroll-padding", "scroll-padding-top", "scroll-padding-right", "scroll-padding-bottom",
     "scroll-padding-left"]
  | .position =>
    ["position", "top", "right", "bottom", "left", "inset", "inset-inline", "inset-inline-start",
     "inset-inline-end", "inset-block", "inset-block-start", "inset-block-end", "z-index",
     "anchor-name", "anchor-scope", "position-anchor", "position-area", "position-try",
     "position-try-fallbacks", "position-try-order", "position-visibility"]
  | .typography =>
    ["font", "font-family", "font-size", "font-style", "font-weight", "font-variant",
     "font-variant-numeric", "font-variant-caps", "font-variant-ligatures", "font-stretch",
     "font-feature-settings", "font-variation-settings", "font-kerning", "font-optical-sizing",
     "font-size-adjust", "font-synthesis", "line-height", "letter-spacing", "word-spacing",
     "text-align", "text-align-last", "text-indent", "text-transform", "text-decoration",
     "text-decoration-line", "text-decoration-style", "text-decoration-color",
     "text-decoration-thickness", "text-underline-offset", "text-underline-position",
     "text-overflow", "text-wrap", "text-rendering", "text-emphasis", "white-space",
     "white-space-collapse", "word-break", "overflow-wrap", "hyphens", "direction", "unicode-bidi",
     "writing-mode", "text-orientation", "vertical-align", "list-style", "list-style-type",
     "list-style-position", "list-style-image", "quotes", "content", "counter-reset",
     "counter-increment", "counter-set", "tab-size", "line-clamp", "-webkit-line-clamp",
     "-webkit-box-orient", "-webkit-font-smoothing", "-moz-osx-font-smoothing",
     "-webkit-text-stroke", "-webkit-text-stroke-width", "-webkit-text-stroke-color"]
  | .color =>
    ["color", "background", "background-color", "background-image", "background-position",
     "background-position-x", "background-position-y", "background-size", "background-repeat",
     "background-attachment", "background-clip", "background-origin", "background-blend-mode",
     "accent-color", "caret-color", "color-scheme", "fill", "fill-opacity", "stroke",
     "stroke-width", "stroke-opacity", "stroke-dasharray", "stroke-dashoffset", "stroke-linecap",
     "stroke-linejoin", "stroke-miterlimit", "stop-color", "stop-opacity", "flood-color",
     "flood-opacity", "forced-color-adjust", "print-color-adjust", "-webkit-tap-highlight-color",
     "-webkit-text-fill-color"]
  | .border =>
    ["border", "border-width", "border-style", "border-color", "border-top", "border-right",
     "border-bottom", "border-left", "border-top-width", "border-right-width",
     "border-bottom-width", "border-left-width", "border-top-style", "border-right-style",
     "border-bottom-style", "border-left-style", "border-top-color", "border-right-color",
     "border-bottom-color", "border-left-color", "border-inline", "border-inline-start",
     "border-inline-end", "border-inline-width", "border-inline-style", "border-inline-color",
     "border-inline-start-width", "border-inline-start-style", "border-inline-start-color",
     "border-inline-end-width", "border-inline-end-style", "border-inline-end-color",
     "border-block", "border-block-start", "border-block-end", "border-block-width",
     "border-block-style", "border-block-color", "border-block-start-width",
     "border-block-start-style", "border-block-start-color", "border-block-end-width",
     "border-block-end-style", "border-block-end-color", "border-radius", "border-top-left-radius",
     "border-top-right-radius", "border-bottom-right-radius", "border-bottom-left-radius",
     "border-start-start-radius", "border-start-end-radius", "border-end-start-radius",
     "border-end-end-radius", "border-image", "border-image-source", "border-image-slice",
     "border-image-width", "border-image-outset", "border-image-repeat", "border-collapse",
     "border-spacing", "outline", "outline-width", "outline-style", "outline-color",
     "outline-offset"]
  | .effects =>
    ["opacity", "box-shadow", "text-shadow", "filter", "backdrop-filter",
     "-webkit-backdrop-filter", "mix-blend-mode", "transform", "transform-origin",
     "transform-style", "transform-box", "translate", "rotate", "scale", "perspective",
     "perspective-origin", "backface-visibility", "clip", "clip-path", "mask", "mask-image",
     "mask-mode", "mask-position", "mask-size", "mask-repeat", "mask-origin", "mask-clip",
     "mask-composite", "transition", "transition-property", "transition-duration",
     "transition-timing-function", "transition-delay", "transition-behavior", "animation",
     "animation-name", "animation-duration", "animation-timing-function", "animation-delay",
     "animation-iteration-count", "animation-direction", "animation-fill-mode",
     "animation-play-state", "animation-composition", "animation-timeline", "view-transition-name",
     "view-transition-class", "will-change", "image-rendering"]
  | .interactivity =>
    ["cursor", "pointer-events", "user-select", "touch-action", "resize", "appearance",
     "scroll-behavior", "scroll-snap-type", "scroll-snap-align", "scroll-snap-stop",
     "overscroll-behavior", "overscroll-behavior-x", "overscroll-behavior-y", "scrollbar-width",
     "scrollbar-color", "scrollbar-gutter", "interpolate-size", "-webkit-overflow-scrolling"]
  | .misc =>
    ["all", "zoom"]

end PropertyGroup

namespace Property

/-- All known properties, group by group. -/
def known : List String :=
  PropertyGroup.all.flatMap PropertyGroup.members

def isKnown (name : String) : Bool :=
  known.contains name

/-- The group of a property. What is not known counts as miscellaneous. -/
def group (name : String) : PropertyGroup :=
  (PropertyGroup.all.find? fun g => g.members.contains name).getD .misc

end Property

end AtomicCss
