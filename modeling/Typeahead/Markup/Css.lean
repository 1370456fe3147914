/-
# The words of CSS

Properties and their values.

Key definitions: `Css.properties`, `Css.globalValues`, `Css.propertyValues`.
-/
import Typeahead.Entries

namespace Typeahead.Css

/-- The properties. -/
def properties : List String :=
  ["align-items", "align-self", "animation", "background", "background-color",
   "background-image", "background-position", "background-repeat", "background-size", "border",
   "border-bottom", "border-color", "border-left", "border-radius", "border-right",
   "border-style", "border-top", "border-width", "bottom", "box-shadow", "box-sizing", "color",
   "cursor", "display", "flex", "flex-direction", "flex-grow", "flex-shrink", "flex-wrap",
   "float", "font", "font-family", "font-size", "font-style", "font-weight", "gap",
   "grid-template-columns", "grid-template-rows", "height", "justify-content", "left",
   "letter-spacing", "line-height", "margin", "margin-bottom", "margin-left", "margin-right",
   "margin-top", "max-height", "max-width", "min-height", "min-width", "opacity", "outline",
   "overflow", "overflow-x", "overflow-y", "padding", "padding-bottom", "padding-left",
   "padding-right", "padding-top", "pointer-events", "position", "right", "text-align",
   "text-decoration", "text-overflow", "text-transform", "top", "transform", "transition",
   "user-select", "vertical-align", "visibility", "white-space", "width", "word-break",
   "z-index"]

/-- The values of all properties. -/
def globalValues : List String :=
  ["inherit", "initial", "revert", "unset"]

/-- The values that only some properties have. -/
def valuesByProperty : Entries (List String) :=
  [("align-items", ["baseline", "center", "flex-end", "flex-start", "stretch"]),
   ("align-self", ["auto", "baseline", "center", "flex-end", "flex-start", "stretch"]),
   ("box-sizing", ["border-box", "content-box"]),
   ("cursor", ["auto", "default", "grab", "move", "not-allowed", "pointer", "text", "wait"]),
   ("display", ["block", "contents", "flex", "grid", "inline", "inline-block", "inline-flex",
     "none", "table"]),
   ("flex-direction", ["column", "column-reverse", "row", "row-reverse"]),
   ("flex-wrap", ["nowrap", "wrap", "wrap-reverse"]),
   ("float", ["left", "none", "right"]),
   ("font-style", ["italic", "normal", "oblique"]),
   ("font-weight", ["bold", "bolder", "lighter", "normal"]),
   ("justify-content", ["center", "flex-end", "flex-start", "space-around", "space-between",
     "space-evenly"]),
   ("overflow", ["auto", "clip", "hidden", "scroll", "visible"]),
   ("overflow-x", ["auto", "clip", "hidden", "scroll", "visible"]),
   ("overflow-y", ["auto", "clip", "hidden", "scroll", "visible"]),
   ("pointer-events", ["auto", "none"]),
   ("position", ["absolute", "fixed", "relative", "static", "sticky"]),
   ("text-align", ["center", "end", "justify", "left", "right", "start"]),
   ("text-decoration", ["line-through", "none", "overline", "underline"]),
   ("text-overflow", ["clip", "ellipsis"]),
   ("text-transform", ["capitalize", "lowercase", "none", "uppercase"]),
   ("user-select", ["all", "auto", "none", "text"]),
   ("vertical-align", ["baseline", "bottom", "middle", "sub", "super", "top"]),
   ("visibility", ["collapse", "hidden", "visible"]),
   ("white-space", ["normal", "nowrap", "pre", "pre-line", "pre-wrap"]),
   ("word-break", ["break-all", "break-word", "keep-all", "normal"])]

/-- The values that a property has beside those of all properties. The case of its
letters does not count. -/
def propertyValues (property : String) : List String :=
  (valuesByProperty.get? (property.map Char.toLower)).getD []

end Typeahead.Css
