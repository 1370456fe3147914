/-
# Built-in members

The members of the built-in types of scripts and of web pages, with the spelling of
the type of each; for a method that is the type of its result. A type that extends
another lists its own members first.

Key definitions: `BuiltIn`, `Catalog.members?`, `Catalog.member?`.
-/
import Typeahead.Types.Basic

namespace Typeahead

/-- A built-in member or name with the spelling of its type. -/
structure BuiltIn where
  name : String
  kind : MemberKind
  spelling : String
  deriving DecidableEq, Repr

namespace Catalog

/-- A member that is read. -/
def property (name spelling : String) : BuiltIn := ⟨name, .property, spelling⟩

/-- A member that is called. -/
def method (name spelling : String) : BuiltIn := ⟨name, .method, spelling⟩

/-- The members of a type and those of the type it extends that it does not have
itself. -/
def extend (own base : List BuiltIn) : List BuiltIn :=
  own ++ base.filter fun b => own.all fun o => o.name != b.name

/-- The members of strings. -/
def stringMembers : List BuiltIn :=
  [property "length" "number", method "at" "string", method "charAt" "string",
   method "charCodeAt" "number", method "codePointAt" "number", method "concat" "string",
   method "endsWith" "boolean", method "includes" "boolean", method "indexOf" "number",
   method "lastIndexOf" "number", method "localeCompare" "number",
   method "match" "Array<string>", method "matchAll" "Object", method "normalize" "string",
   method "padEnd" "string", method "padStart" "string", method "repeat" "string",
   method "replace" "string", method "replaceAll" "string", method "search" "number",
   method "slice" "string", method "split" "Array<string>", method "startsWith" "boolean",
   method "substring" "string", method "toLocaleLowerCase" "string",
   method "toLocaleUpperCase" "string", method "toLowerCase" "string",
   method "toString" "string", method "toUpperCase" "string", method "trim" "string",
   method "trimEnd" "string", method "trimStart" "string", method "valueOf" "string"]

/-- The members of numbers. -/
def numberMembers : List BuiltIn :=
  [method "toExponential" "string", method "toFixed" "string",
   method "toLocaleString" "string", method "toPrecision" "string", method "toString" "string",
   method "valueOf" "number"]

/-- The members of booleans. -/
def booleanMembers : List BuiltIn :=
  [method "toString" "string", method "valueOf" "boolean"]

/-- The members of big integers. -/
def bigintMembers : List BuiltIn :=
  [method "toLocaleString" "string", method "toString" "string", method "valueOf" "bigint"]

/-- The members of symbols. -/
def symbolMembers : List BuiltIn :=
  [property "description" "string", method "toString" "string", method "valueOf" "symbol"]

/-- The members of arrays. -/
def arrayMembers : List BuiltIn :=
  [property "length" "number", method "at" "T", method "concat" "Array<T>",
   method "copyWithin" "Array<T>", method "entries" "Object", method "every" "boolean",
   method "fill" "Array<T>", method "filter" "Array<T>", method "find" "T",
   method "findIndex" "number", method "findLast" "T", method "findLastIndex" "number",
   method "flat" "Array<unknown>", method "flatMap" "Array<unknown>",
   method "forEach" "undefined", method "includes" "boolean", method "indexOf" "number",
   method "join" "string", method "keys" "Object", method "lastIndexOf" "number",
   method "map" "Array<unknown>", method "pop" "T", method "push" "number",
   method "reduce" "unknown", method "reduceRight" "unknown", method "reverse" "Array<T>",
   method "shift" "T", method "slice" "Array<T>", method "some" "boolean",
   method "sort" "Array<T>", method "splice" "Array<T>", method "toReversed" "Array<T>",
   method "toSorted" "Array<T>", method "toString" "string", method "unshift" "number",
   method "values" "Object"]

/-- The members of all objects. -/
def objectMembers : List BuiltIn :=
  [property "constructor" "Function", method "hasOwnProperty" "boolean",
   method "isPrototypeOf" "boolean", method "propertyIsEnumerable" "boolean",
   method "toLocaleString" "string", method "toString" "string", method "valueOf" "Object"]

/-- The members of functions. -/
def functionMembers : List BuiltIn :=
  [method "apply" "unknown", method "bind" "Function", method "call" "unknown",
   property "length" "number", property "name" "string"]

/-- The members of promises. -/
def promiseMembers : List BuiltIn :=
  [method "catch" "Promise", method "finally" "Promise", method "then" "Promise"]

/-- The members of maps. -/
def mapMembers : List BuiltIn :=
  [property "size" "number", method "clear" "undefined", method "delete" "boolean",
   method "entries" "Object", method "forEach" "undefined", method "get" "unknown",
   method "has" "boolean", method "keys" "Object", method "set" "Map",
   method "values" "Object"]

/-- The members of sets. -/
def setMembers : List BuiltIn :=
  [property "size" "number", method "add" "Set", method "clear" "undefined",
   method "delete" "boolean", method "entries" "Object", method "forEach" "undefined",
   method "has" "boolean", method "values" "Object"]

/-- The members of dates. -/
def dateMembers : List BuiltIn :=
  [method "getDate" "number", method "getDay" "number", method "getFullYear" "number",
   method "getHours" "number", method "getMilliseconds" "number", method "getMinutes" "number",
   method "getMonth" "number", method "getSeconds" "number", method "getTime" "number",
   method "getTimezoneOffset" "number", method "setDate" "number",
   method "setFullYear" "number", method "setHours" "number", method "setMinutes" "number",
   method "setMonth" "number", method "setSeconds" "number", method "setTime" "number",
   method "toDateString" "string", method "toISOString" "string", method "toJSON" "string",
   method "toLocaleDateString" "string", method "toLocaleString" "string",
   method "toLocaleTimeString" "string", method "toString" "string",
   method "toTimeString" "string", method "toUTCString" "string", method "valueOf" "number"]

/-- The members of regular expressions. -/
def regexpMembers : List BuiltIn :=
  [property "flags" "string", property "global" "boolean", property "ignoreCase" "boolean",
   property "lastIndex" "number", property "multiline" "boolean", property "source" "string",
   method "exec" "Array<string>", method "test" "boolean", method "toString" "string"]

/-- The members of errors. -/
def errorMembers : List BuiltIn :=
  [property "cause" "unknown", property "message" "string", property "name" "string",
   property "stack" "string", method "toString" "string"]

/-- The members of `Math`. -/
def mathMembers : List BuiltIn :=
  [property "E" "number", property "LN10" "number", property "LN2" "number",
   property "LOG10E" "number", property "LOG2E" "number", property "PI" "number",
   property "SQRT1_2" "number", property "SQRT2" "number", method "abs" "number",
   method "acos" "number", method "asin" "number", method "atan" "number",
   method "atan2" "number", method "cbrt" "number", method "ceil" "number",
   method "cos" "number", method "exp" "number", method "floor" "number",
   method "hypot" "number", method "log" "number", method "log10" "number",
   method "log2" "number", method "max" "number", method "min" "number", method "pow" "number",
   method "random" "number", method "round" "number", method "sign" "number",
   method "sin" "number", method "sqrt" "number", method "tan" "number",
   method "trunc" "number"]

/-- The members of `JSON`. -/
def jsonMembers : List BuiltIn :=
  [method "parse" "unknown", method "stringify" "string"]

/-- The members of `console`. -/
def consoleMembers : List BuiltIn :=
  [method "assert" "undefined", method "clear" "undefined", method "count" "undefined",
   method "debug" "undefined", method "dir" "undefined", method "error" "undefined",
   method "group" "undefined", method "groupCollapsed" "undefined",
   method "groupEnd" "undefined", method "info" "undefined", method "log" "undefined",
   method "table" "undefined", method "time" "undefined", method "timeEnd" "undefined",
   method "trace" "undefined", method "warn" "undefined"]

/-- The members of `Object`. -/
def objectConstructorMembers : List BuiltIn :=
  [method "assign" "Object", method "create" "Object", method "defineProperty" "Object",
   method "entries" "Array<unknown>", method "freeze" "Object", method "fromEntries" "Object",
   method "getOwnPropertyNames" "Array<string>", method "getPrototypeOf" "Object",
   method "is" "boolean", method "isFrozen" "boolean", method "keys" "Array<string>",
   method "values" "Array<unknown>"]

/-- The members of `Array`. -/
def arrayConstructorMembers : List BuiltIn :=
  [method "from" "Array<unknown>", method "isArray" "boolean", method "of" "Array<unknown>"]

/-- The members of `Number`. -/
def numberConstructorMembers : List BuiltIn :=
  [property "EPSILON" "number", property "MAX_SAFE_INTEGER" "number",
   property "MAX_VALUE" "number", property "MIN_SAFE_INTEGER" "number",
   property "MIN_VALUE" "number", property "NaN" "number",
   property "NEGATIVE_INFINITY" "number", property "POSITIVE_INFINITY" "number",
   method "isFinite" "boolean", method "isInteger" "boolean", method "isNaN" "boolean",
   method "isSafeInteger" "boolean", method "parseFloat" "number", method "parseInt" "number"]

/-- The members of `String`. -/
def stringConstructorMembers : List BuiltIn :=
  [method "fromCharCode" "string", method "fromCodePoint" "string", method "raw" "string"]

/-- The members of `Promise`. -/
def promiseConstructorMembers : List BuiltIn :=
  [method "all" "Promise", method "allSettled" "Promise", method "any" "Promise",
   method "race" "Promise", method "reject" "Promise", method "resolve" "Promise"]

/-- The members of `Date`. -/
def dateConstructorMembers : List BuiltIn :=
  [method "now" "number", method "parse" "number", method "UTC" "number"]

/-- The members of event targets. -/
def eventTargetMembers : List BuiltIn :=
  [method "addEventListener" "undefined", method "dispatchEvent" "boolean",
   method "removeEventListener" "undefined"]

/-- The members of documents. -/
def documentMembers : List BuiltIn :=
  [property "activeElement" "HTMLElement", property "body" "HTMLElement",
   property "cookie" "string", property "documentElement" "HTMLElement",
   property "head" "HTMLElement", property "readyState" "string", property "title" "string",
   property "URL" "string", method "addEventListener" "undefined",
   method "createDocumentFragment" "HTMLElement", method "createElement" "HTMLElement",
   method "createTextNode" "Object", method "getElementById" "HTMLElement",
   method "getElementsByClassName" "NodeList", method "getElementsByTagName" "NodeList",
   method "querySelector" "HTMLElement", method "querySelectorAll" "NodeList",
   method "removeEventListener" "undefined"]

/-- The members of windows. -/
def windowMembers : List BuiltIn :=
  [property "console" "Console", property "document" "Document",
   property "innerHeight" "number", property "innerWidth" "number",
   property "localStorage" "Storage", property "location" "Object",
   property "navigator" "Object", property "scrollX" "number", property "scrollY" "number",
   property "sessionStorage" "Storage", method "addEventListener" "undefined",
   method "alert" "undefined", method "cancelAnimationFrame" "undefined",
   method "clearInterval" "undefined", method "clearTimeout" "undefined",
   method "confirm" "boolean", method "fetch" "Promise",
   method "getComputedStyle" "CSSStyleDeclaration", method "open" "Window",
   method "prompt" "string", method "removeEventListener" "undefined",
   method "requestAnimationFrame" "number", method "scrollTo" "undefined",
   method "setInterval" "number", method "setTimeout" "number"]

/-- The members of storages. -/
def storageMembers : List BuiltIn :=
  [property "length" "number", method "clear" "undefined", method "getItem" "string",
   method "key" "string", method "removeItem" "undefined", method "setItem" "undefined"]

/-- The members of elements. -/
def htmlElementMembers : List BuiltIn :=
  [property "checked" "boolean", property "children" "NodeList",
   property "classList" "DOMTokenList", property "className" "string",
   property "clientHeight" "number", property "clientWidth" "number",
   property "dataset" "Object", property "disabled" "boolean",
   property "firstElementChild" "HTMLElement", property "hidden" "boolean",
   property "id" "string", property "innerHTML" "string", property "innerText" "string",
   property "lastElementChild" "HTMLElement", property "nextElementSibling" "HTMLElement",
   property "offsetHeight" "number", property "offsetWidth" "number",
   property "outerHTML" "string", property "parentElement" "HTMLElement",
   property "previousElementSibling" "HTMLElement", property "scrollTop" "number",
   property "style" "CSSStyleDeclaration", property "tagName" "string",
   property "textContent" "string", property "value" "string",
   method "addEventListener" "undefined", method "after" "undefined",
   method "append" "undefined", method "appendChild" "HTMLElement",
   method "before" "undefined", method "blur" "undefined", method "click" "undefined",
   method "closest" "HTMLElement", method "contains" "boolean", method "focus" "undefined",
   method "getAttribute" "string", method "getBoundingClientRect" "Object",
   method "hasAttribute" "boolean", method "insertAdjacentHTML" "undefined",
   method "matches" "boolean", method "prepend" "undefined",
   method "querySelector" "HTMLElement", method "querySelectorAll" "NodeList",
   method "remove" "undefined", method "removeAttribute" "undefined",
   method "removeChild" "HTMLElement", method "removeEventListener" "undefined",
   method "replaceWith" "undefined", method "scrollIntoView" "undefined",
   method "setAttribute" "undefined", method "toggleAttribute" "boolean"]

/-- The members that inputs have beside those of elements. -/
def htmlInputElementExtra : List BuiltIn :=
  [property "defaultValue" "string", property "max" "string", property "maxLength" "number",
   property "min" "string", property "name" "string", property "placeholder" "string",
   property "readOnly" "boolean", property "required" "boolean",
   property "selectionEnd" "number", property "selectionStart" "number",
   property "type" "string", property "valueAsNumber" "number",
   method "checkValidity" "boolean", method "select" "undefined",
   method "setSelectionRange" "undefined"]

/-- The members that buttons have beside those of elements. -/
def htmlButtonElementExtra : List BuiltIn :=
  [property "form" "HTMLElement", property "name" "string", property "type" "string"]

/-- The members of lists of nodes. -/
def nodeListMembers : List BuiltIn :=
  [property "length" "number", method "entries" "Object", method "forEach" "undefined",
   method "item" "HTMLElement", method "keys" "Object", method "values" "Object"]

/-- The members of lists of classes. -/
def domTokenListMembers : List BuiltIn :=
  [property "length" "number", property "value" "string", method "add" "undefined",
   method "contains" "boolean", method "item" "string", method "remove" "undefined",
   method "replace" "boolean", method "toggle" "boolean"]

/-- The members of styles. -/
def cssStyleDeclarationMembers : List BuiltIn :=
  [property "background" "string", property "backgroundColor" "string",
   property "border" "string", property "color" "string", property "cssText" "string",
   property "display" "string", property "fontSize" "string", property "height" "string",
   property "left" "string", property "margin" "string", property "opacity" "string",
   property "padding" "string", property "position" "string", property "top" "string",
   property "transform" "string", property "visibility" "string", property "width" "string",
   property "zIndex" "string", method "getPropertyValue" "string",
   method "removeProperty" "string", method "setProperty" "undefined"]

/-- The members of events. -/
def eventMembers : List BuiltIn :=
  [property "bubbles" "boolean", property "currentTarget" "HTMLElement",
   property "defaultPrevented" "boolean", property "key" "string",
   property "target" "HTMLElement", property "timeStamp" "number", property "type" "string",
   method "preventDefault" "undefined", method "stopImmediatePropagation" "undefined",
   method "stopPropagation" "undefined"]

/-- The members of keyboard events. -/
def keyboardEventMembers : List BuiltIn := extend [property "code" "string"] eventMembers

/-- The members of mouse events. -/
def mouseEventMembers : List BuiltIn :=
  extend [property "button" "number", property "clientX" "number", property "clientY" "number"]
    eventMembers

/-- The built-in types with their members. -/
def builtInTypes : Entries (List BuiltIn) :=
  [("String", stringMembers), ("Number", numberMembers), ("Boolean", booleanMembers),
   ("BigInt", bigintMembers), ("Symbol", symbolMembers), ("Array", arrayMembers),
   ("Object", objectMembers), ("Function", functionMembers), ("Promise", promiseMembers),
   ("Map", mapMembers), ("Set", setMembers), ("Date", dateMembers), ("RegExp", regexpMembers),
   ("Error", errorMembers), ("Math", mathMembers), ("JSON", jsonMembers),
   ("Console", consoleMembers), ("ObjectConstructor", objectConstructorMembers),
   ("ArrayConstructor", arrayConstructorMembers),
   ("NumberConstructor", numberConstructorMembers),
   ("StringConstructor", stringConstructorMembers),
   ("PromiseConstructor", promiseConstructorMembers),
   ("DateConstructor", dateConstructorMembers), ("Document", documentMembers),
   ("Window", windowMembers), ("Storage", storageMembers), ("HTMLElement", htmlElementMembers),
   ("NodeList", nodeListMembers), ("DOMTokenList", domTokenListMembers),
   ("CSSStyleDeclaration", cssStyleDeclarationMembers), ("EventTarget", eventTargetMembers),
   ("HTMLInputElement", extend htmlInputElementExtra htmlElementMembers),
   ("HTMLButtonElement", extend htmlButtonElementExtra htmlElementMembers),
   ("Event", eventMembers), ("KeyboardEvent", keyboardEventMembers),
   ("MouseEvent", mouseEventMembers)]

/-- The members of a built-in type. -/
def members? (type : String) : Option (List BuiltIn) := builtInTypes.get? type

/-- A member of a built-in type. -/
def member? (type name : String) : Option BuiltIn :=
  (members? type).bind fun members => members.find? (·.name = name)

end Catalog
end Typeahead
