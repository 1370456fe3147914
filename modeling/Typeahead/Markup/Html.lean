/-
# The words of HTML

Tags and attributes. An attribute belongs to all tags or to some; one that is true by
being there is written without a value.

Key definitions: `Html.tags`, `Html.globalAttributes`, `Html.tagAttributes`,
`Html.booleanAttributes`.
-/
import Typeahead.Entries

namespace Typeahead.Html

/-- The tags. -/
def tags : List String :=
  ["a", "abbr", "address", "article", "aside", "audio", "b", "blockquote", "body", "br",
   "button", "canvas", "caption", "code", "col", "datalist", "dd", "details", "dialog", "div",
   "dl", "dt", "em", "fieldset", "figcaption", "figure", "footer", "form", "h1", "h2", "h3",
   "h4", "h5", "h6", "head", "header", "hr", "html", "i", "iframe", "img", "input", "label",
   "legend", "li", "link", "main", "meta", "nav", "noscript", "ol", "optgroup", "option", "p",
   "pre", "progress", "script", "section", "select", "small", "source", "span", "strong",
   "style", "summary", "sup", "table", "tbody", "td", "template", "textarea", "tfoot", "th",
   "thead", "title", "tr", "ul", "video"]

/-- The attributes of all tags. -/
def globalAttributes : List String :=
  ["accesskey", "class", "contenteditable", "dir", "draggable", "hidden", "id", "lang",
   "onblur", "onchange", "onclick", "onfocus", "oninput", "onkeydown", "onkeyup", "onsubmit",
   "role", "spellcheck", "style", "tabindex", "title"]

/-- The attributes that only some tags have. -/
def attributesByTag : Entries (List String) :=
  [("a", ["download", "href", "hreflang", "rel", "target", "type"]),
   ("audio", ["autoplay", "controls", "loop", "muted", "preload", "src"]),
   ("button", ["disabled", "form", "name", "type", "value"]),
   ("form", ["action", "autocomplete", "enctype", "method", "novalidate", "target"]),
   ("iframe", ["allow", "height", "loading", "name", "sandbox", "src", "width"]),
   ("img", ["alt", "decoding", "height", "loading", "sizes", "src", "srcset", "width"]),
   ("input", ["accept", "autocomplete", "autofocus", "checked", "disabled", "max", "maxlength",
     "min", "minlength", "multiple", "name", "pattern", "placeholder", "readonly", "required",
     "step", "type", "value"]),
   ("label", ["for", "form"]),
   ("link", ["as", "crossorigin", "href", "media", "rel", "type"]),
   ("meta", ["charset", "content", "http-equiv", "name"]),
   ("ol", ["reversed", "start", "type"]),
   ("option", ["disabled", "label", "selected", "value"]),
   ("script", ["async", "crossorigin", "defer", "integrity", "src", "type"]),
   ("select", ["autofocus", "disabled", "multiple", "name", "required", "size"]),
   ("source", ["media", "sizes", "src", "srcset", "type"]),
   ("td", ["colspan", "headers", "rowspan"]),
   ("textarea", ["cols", "disabled", "maxlength", "name", "placeholder", "readonly", "required",
     "rows", "wrap"]),
   ("th", ["colspan", "rowspan", "scope"]),
   ("video", ["autoplay", "controls", "height", "loop", "muted", "poster", "src", "width"])]

/-- The attributes that are written without a value. -/
def booleanAttributes : List String :=
  ["async", "autofocus", "autoplay", "checked", "controls", "defer", "disabled", "hidden",
   "loop", "multiple", "muted", "novalidate", "readonly", "required", "reversed", "selected"]

/-- The attributes that a tag has beside those of all tags. The case of its letters does
not count. -/
def tagAttributes (tag : String) : List String :=
  (attributesByTag.get? (tag.map Char.toLower)).getD []

end Typeahead.Html
