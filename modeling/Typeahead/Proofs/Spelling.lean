/-
# The text of a spelled type spells it

A type that a text spells is shown as a text, and that spells the type again, however many arrays are around it and
whatever stands for the elements of an array. So nothing a text can spell is lost by showing it: an array is shown
with its brackets, a primitive and `unknown` by one of their words, and every other name as it is, which no reserved
word and no array can capture since it was none before.

Key theorems: `Text.trim_trim`, `Ty.ofSpelling_array`, `Ty.ofSpelling_single`, `Ty.ofSpelling_text_ofChars`,
`Ty.ofSpelling_text_ofSpelling`.
-/
import Mathlib.Data.List.DropRight
import Typeahead.Types.Display
import Typeahead.Types.Spelling

namespace Typeahead

open Text Spelling

/-! ### Trimming -/

/-- A text without blanks at its ends is trimmed. -/
theorem Text.trim_eq_self {first last : Char} (inner : List Char) (hfirst : isBlank first = false)
    (hlast : isBlank last = false) : trim (first :: (inner ++ [last])) = first :: (inner ++ [last]) := by
  have hstart : trimStart (first :: (inner ++ [last])) = first :: (inner ++ [last]) :=
    List.dropWhile_cons_of_neg (by simp [hfirst])
  have hend : trimEnd ((first :: inner) ++ [last]) = (first :: inner) ++ [last] :=
    List.rdropWhile_concat_neg _ _ _ (by simp [hlast])
  rw [trim, hstart]
  exact hend

/-- Trimming twice is trimming once: a start of a text that begins with no blank begins with none. -/
theorem Text.trim_trim (text : List Char) : trim (trim text) = trim text := by
  have hstart : trimStart (trim text) = trim text := by
    cases htrim : trim text with
    | nil => rfl
    | cons c rest =>
      have hprefix : trim text <+: text.dropWhile isBlank := List.rdropWhile_prefix isBlank _
      rw [htrim] at hprefix
      obtain ⟨more, hmore⟩ := hprefix
      have hc := List.head?_dropWhile_not isBlank text
      rw [← hmore] at hc
      exact List.dropWhile_cons_of_neg (by simpa using hc)
  rw [trim, hstart]
  exact List.rdropWhile_idempotent isBlank (trimStart text)

/-! ### Arrays -/

theorem Spelling.arrayElement?_array (inner : List Char) :
    arrayElement? ("Array<".toList ++ (inner ++ ['>'])) = some inner := by
  have hstart : withoutStart? "Array<".toList ("Array<".toList ++ (inner ++ ['>'])) = some (inner ++ ['>']) := by
    rw [withoutStart?, if_pos (by simp), List.drop_left]
  have hend : withoutEnd? ['>'] (inner ++ ['>']) = some inner := by
    rw [withoutEnd?, if_pos (by simp)]
    simp
  rw [arrayElement?, hstart, Option.bind_some, hend]

namespace Ty

theorem ofChars_of_some {element : Ty} {text inner : List Char} (h : arrayElement? (trim text) = some inner) :
    ofChars element text = .array (ofChars element inner) := by
  rw [ofChars]
  split
  · rename_i heq
    rw [Option.some.inj (h.symm.trans heq)]
  · rename_i heq
    cases h.symm.trans heq

theorem ofChars_of_none {element : Ty} {text : List Char} (h : arrayElement? (trim text) = none) :
    ofChars element text = single element (String.ofList (trim text)) := by
  rw [ofChars]
  split
  · rename_i heq
    cases h.symm.trans heq
  · rfl

/-- **Brackets** around the text of a type spell the array of it. -/
theorem ofSpelling_array (text : String) : ofSpelling ("Array<" ++ text ++ ">") = .array (ofSpelling text) := by
  have hchars : ("Array<" ++ text ++ ">").toList = "Array<".toList ++ (text.toList ++ ['>']) := by simp
  have htrim : trim ("Array<".toList ++ (text.toList ++ ['>'])) = "Array<".toList ++ (text.toList ++ ['>']) := by
    have hblank : isBlank 'A' = false ∧ isBlank '>' = false := by decide
    simpa using trim_eq_self ("rray<".toList ++ text.toList) hblank.1 hblank.2
  rw [ofSpelling, ofSpellingFor, hchars, ofChars_of_some (by rw [htrim, arrayElement?_array])]
  rfl

/-! ### Single types -/

/-- A word without blanks around it that is no array. -/
theorem ofSpelling_word {word : String} (htrim : trim word.toList = word.toList)
    (harray : arrayElement? word.toList = none) : ofSpelling word = single .unknown word := by
  rw [ofSpelling, ofSpellingFor, ofChars_of_none (by rw [htrim, harray]), htrim, String.ofList_toList]
  rfl

theorem ofSpelling_name (kind : PrimitiveKind) : ofSpelling kind.name = .primitive kind := by
  cases kind <;> exact ofSpelling_word (by decide) (by decide)

/-- The type of the elements is asked for by one word only. -/
theorem single_eq (element : Ty) {word : String} (h : word ≠ "T") : single element word = single .unknown word := by
  unfold single
  split
  · rfl
  · rfl
  · rfl
  · exact absurd rfl h
  · rfl
  · rfl

/-- **A single type** is spelled by its text, if its elements are. -/
theorem ofSpelling_single {element : Ty} (helement : ofSpelling element.text = element) {word : String}
    (htrim : trim word.toList = word.toList) (harray : arrayElement? word.toList = none) :
    ofSpelling (single element word).text = single element word := by
  have hread : ofSpelling word = single .unknown word := ofSpelling_word htrim harray
  by_cases hword : word = "T"
  · subst hword
    exact helement
  · rw [single_eq element hword]
    revert hread
    unfold single
    split
    · exact fun _ => ofSpelling_word (by decide) (by decide)
    · exact fun _ => ofSpelling_word (by decide) (by decide)
    · exact fun _ => ofSpelling_word (by decide) (by decide)
    · exact absurd rfl hword
    · exact fun _ => ofSpelling_word (by decide) (by decide)
    · split
      · exact fun _ => ofSpelling_name _
      · exact id

/-! ### Every spelled type -/

/-- With elements that are spelled by their text, so is every type that a text spells. -/
theorem ofSpelling_text_ofChars {element : Ty} (helement : ofSpelling element.text = element) (text : List Char) :
    ofSpelling (ofChars element text).text = ofChars element text := by
  fun_induction ofChars element text with
  | case1 text inner h ih => rw [Ty.text, ofSpelling_array, ih]
  | case2 text h =>
    refine ofSpelling_single helement ?_ ?_
    · rw [String.toList_ofList, trim_trim]
    · rw [String.toList_ofList, h]

theorem ofSpelling_text_unknown : ofSpelling Ty.unknown.text = .unknown :=
  ofSpelling_word (by decide) (by decide)

/-- **The text of a spelled type spells it**, also where a spelled type stands for the elements of the array that has
the member. -/
theorem ofSpelling_text_ofSpelling (text : String) :
    ofSpelling (ofSpelling text).text = ofSpelling text ∧
      ∀ element : String, ofSpelling (ofSpellingFor (some (ofSpelling element)) text).text =
        ofSpellingFor (some (ofSpelling element)) text := by
  have hspelled : ∀ text : String, ofSpelling (ofSpelling text).text = ofSpelling text := fun text =>
    ofSpelling_text_ofChars ofSpelling_text_unknown text.toList
  exact ⟨hspelled text, fun element => ofSpelling_text_ofChars (hspelled element) text.toList⟩

/-- A bracket that is never closed is part of a name, here inside two arrays. -/
example : (Ty.ofSpelling " Array< Array<x[] > ").text = "Array<Array<Array<x>>" := by decide +kernel

end Ty

end Typeahead
