/-
# Global names

The names that scripts can use without declaring them, and the values that `new`
makes of some of them.

Key definitions: `Catalog.globals`, `Catalog.globalType?`, `Catalog.constructed?`.
-/
import Typeahead.Types.Catalog
import Typeahead.Types.Spelling

namespace Typeahead.Catalog

/-- The global names. -/
def globals : List BuiltIn :=
  [property "Array" "ArrayConstructor", property "Date" "DateConstructor",
   property "Infinity" "number", property "JSON" "JSON", property "Math" "Math",
   property "NaN" "number", property "Number" "NumberConstructor",
   property "Object" "ObjectConstructor", property "Promise" "PromiseConstructor",
   property "String" "StringConstructor", property "console" "Console",
   property "document" "Document", property "globalThis" "Window",
   property "localStorage" "Storage", property "sessionStorage" "Storage",
   property "undefined" "undefined", property "window" "Window", method "alert" "undefined",
   method "clearInterval" "undefined", method "clearTimeout" "undefined",
   method "decodeURIComponent" "string", method "encodeURIComponent" "string",
   method "fetch" "Promise", method "isFinite" "boolean", method "isNaN" "boolean",
   method "parseFloat" "number", method "parseInt" "number",
   method "requestAnimationFrame" "number", method "setInterval" "number",
   method "setTimeout" "number", method "structuredClone" "unknown"]

/-- A global name. -/
def global? (name : String) : Option BuiltIn := globals.find? (·.name = name)

/-- The type of a global name. -/
def globalType? (name : String) : Option Ty :=
  (global? name).map fun g =>
    match g.kind with
    | .property => .ofSpelling g.spelling
    | .method => .function (some g.name) [] (.ofSpelling g.spelling)

/-- The type of what `new` makes of a built-in name. -/
def constructed? : String → Option Ty
  | "Array" => some (.array .unknown)
  | "Object" => some .anyObject
  | "TypeError" | "RangeError" => some (.named "Error")
  | name =>
    if name ∈ ["Date", "Error", "Map", "Promise", "RegExp", "Set", "Event", "KeyboardEvent",
        "MouseEvent"] then some (.named name)
    else none

end Typeahead.Catalog
