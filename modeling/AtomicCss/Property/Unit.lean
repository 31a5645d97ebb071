/-!
# Units of numeric values

A number given to a property is a count, a length in pixels, or a time in milliseconds.
-/

namespace AtomicCss.Property

def unitless : List String :=
  ["animation-iteration-count", "aspect-ratio", "border-image-outset", "border-image-slice",
   "border-image-width", "column-count", "fill-opacity", "flex", "flex-grow", "flex-shrink",
   "flood-opacity", "font-size-adjust", "font-weight", "grid-area", "grid-column",
   "grid-column-end", "grid-column-start", "grid-row", "grid-row-end", "grid-row-start",
   "line-clamp", "-webkit-line-clamp", "line-height", "opacity", "order", "orphans", "scale",
   "stop-opacity", "stroke-miterlimit", "stroke-opacity", "tab-size", "widows", "z-index", "zoom"]

def lengths : List String :=
  ["width", "height", "min-width", "min-height", "max-width", "max-height", "inline-size",
   "block-size", "min-inline-size", "max-inline-size", "min-block-size", "max-block-size",
   "margin", "margin-top", "margin-right", "margin-bottom", "margin-left", "margin-inline",
   "margin-inline-start", "margin-inline-end", "margin-block", "margin-block-start",
   "margin-block-end", "padding", "padding-top", "padding-right", "padding-bottom", "padding-left",
   "padding-inline", "padding-inline-start", "padding-inline-end", "padding-block",
   "padding-block-start", "padding-block-end", "scroll-margin", "scroll-margin-top",
   "scroll-margin-right", "scroll-margin-bottom", "scroll-margin-left", "scroll-padding",
   "scroll-padding-top", "scroll-padding-right", "scroll-padding-bottom", "scroll-padding-left",
   "top", "right", "bottom", "left", "inset", "inset-inline", "inset-inline-start",
   "inset-inline-end", "inset-block", "inset-block-start", "inset-block-end", "gap", "row-gap",
   "column-gap", "column-width", "column-rule-width", "flex-basis", "font-size", "letter-spacing",
   "word-spacing", "text-indent", "text-underline-offset", "text-decoration-thickness",
   "border-width", "border-top-width", "border-right-width", "border-bottom-width",
   "border-left-width", "border-inline-width", "border-inline-start-width",
   "border-inline-end-width", "border-block-width", "border-block-start-width",
   "border-block-end-width", "border-radius", "border-top-left-radius", "border-top-right-radius",
   "border-bottom-right-radius", "border-bottom-left-radius", "border-start-start-radius",
   "border-start-end-radius", "border-end-start-radius", "border-end-end-radius", "border-spacing",
   "outline-width", "outline-offset", "perspective", "stroke-width", "-webkit-text-stroke-width"]

def times : List String :=
  ["transition-duration", "transition-delay", "animation-duration", "animation-delay"]

def isUnitless (name : String) : Bool :=
  unitless.contains name

def isLength (name : String) : Bool :=
  lengths.contains name

def isTime (name : String) : Bool :=
  times.contains name

end AtomicCss.Property
