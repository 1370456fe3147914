/-
# Spelled types

The types of the built-in members are written as texts. `Array<X>` and `X[]` are
arrays of `X`; `T` is the type of the elements of the array that has the member;
the empty text, `unknown` and `any` tell nothing; a few words are primitives and
`object` is any object; every other text is the name of an object. Blanks around a
text do not count, at any depth.

Key definitions: `Ty.ofSpelling`, `Ty.ofSpellingFor`.
-/
import Typeahead.Text.Blank
import Typeahead.Types.Basic

namespace Typeahead

/-- The primitive that a word spells. -/
def PrimitiveKind.ofWord? : String → Option PrimitiveKind
  | "string" | "String" => some .string
  | "number" | "Number" => some .number
  | "boolean" | "Boolean" => some .boolean
  | "bigint" => some .bigint
  | "symbol" => some .symbol
  | "null" => some .null
  | "undefined" | "void" => some .undefined
  | _ => none

namespace Spelling

/-- A text without the given end. -/
def withoutEnd? (ending text : List Char) : Option (List Char) :=
  if ending.isSuffixOf text then some (text.take (text.length - ending.length)) else none

/-- A text without the given start. -/
def withoutStart? (start text : List Char) : Option (List Char) :=
  if start.isPrefixOf text then some (text.drop start.length) else none

/-- The text between `Array<` and `>`, or before `[]`. -/
def arrayElement? (text : List Char) : Option (List Char) :=
  match (withoutStart? "Array<".toList text).bind (withoutEnd? ['>']) with
  | some inner => some inner
  | none => withoutEnd? ['[', ']'] text

/-- The type that a text without blanks around it spells, if it is no array. -/
def single (element : Ty) (text : String) : Ty :=
  match text with
  | "" | "unknown" | "any" => .unknown
  | "T" => element
  | "object" => .anyObject
  | word =>
    match PrimitiveKind.ofWord? word with
    | some kind => .primitive kind
    | none => .named word

/-- Trimming does not lengthen a text. -/
theorem length_trim_le (text : List Char) : (Text.trim text).length ≤ text.length := by
  have hdrop : ∀ l : List Char, (l.dropWhile Text.isBlank).length ≤ l.length :=
    fun l => (List.dropWhile_sublist _).length_le
  simp only [Text.trim, Text.trimEnd, Text.trimStart, List.length_reverse]
  exact Nat.le_trans (hdrop _) (by simpa using hdrop text)

/-- The text of the elements is shorter than the text of the array. -/
theorem length_arrayElement?_lt {text inner : List Char} (h : arrayElement? text = some inner) :
    inner.length < text.length := by
  have hend : ∀ {ending t r : List Char}, ending ≠ [] → withoutEnd? ending t = some r →
      r.length < t.length := by
    intro ending t r hne hr
    unfold withoutEnd? at hr
    split at hr
    · rename_i hs
      have hle := (List.isSuffixOf_iff_suffix.mp hs).length_le
      have hpos := List.length_pos_iff.mpr hne
      simp only [Option.some.injEq] at hr
      subst hr
      simp only [List.length_take]
      omega
    · simp at hr
  unfold arrayElement? at h
  split at h
  · rename_i r hr
    simp only [Option.some.injEq] at h
    subst h
    obtain ⟨mid, hmid, hr⟩ := Option.bind_eq_some_iff.mp hr
    have hlt := hend (by simp) hr
    unfold withoutStart? at hmid
    split at hmid
    · simp only [Option.some.injEq] at hmid
      subst hmid
      simp only [List.length_drop] at hlt
      omega
    · simp at hmid
  · exact hend (by simp) h

end Spelling

namespace Ty

/-- The type that a text spells, with a type to stand for `T`. -/
def ofChars (element : Ty) (text : List Char) : Ty :=
  match _h : Spelling.arrayElement? (Text.trim text) with
  | some inner => .array (ofChars element inner)
  | none => Spelling.single element (String.ofList (Text.trim text))
termination_by text.length
decreasing_by
  exact Nat.lt_of_lt_of_le (Spelling.length_arrayElement?_lt _h) (Spelling.length_trim_le text)

/-- The type that a text spells for a member of an array with the given elements. -/
def ofSpellingFor (element : Option Ty) (text : String) : Ty :=
  ofChars (element.getD .unknown) text.toList

/-- The type that a text spells. -/
def ofSpelling (text : String) : Ty := ofSpellingFor none text

end Ty
end Typeahead
