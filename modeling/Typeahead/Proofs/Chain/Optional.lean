/-
# Optional links do not change the type

An optional link is typed as the link it stands for, whatever chain it is in, and whatever the document and
the place in it. The one exception is the call: a chain with an optional call is not split, so nothing
is known of its type.

Key theorems: `chainOf?_plain`, `Document.typeAt_optional`.
-/
import Typeahead.Document
import Typeahead.Proofs.Chain.Forward

namespace Typeahead

open Text Chain

/-- Marks and blanks are not part of the chain that links are read as. -/
theorem chainOf?_plain (head : List Char) {placed : List Placed} (h : placed.any Placed.isOptionalCall = false) :
    chainOf? head (placed.map Placed.plain) = chainOf? head placed := by
  refine chainOf?_congr head ?_ ?_
  · rw [List.map_map]
    rfl
  · rw [h]
    simp [Placed.plain, Placed.isOptionalCall]

/-- A chain with no separator behind it is read as its head and its links. -/
theorem ofText?_links_whole {head : List Char} {placed : List Placed} (hhead : isIdentifier head = true)
    (h : ∀ p ∈ placed, p.IsWritten) : AccessChain.ofText? (head ++ placedText placed) = chainOf? head placed := by
  simpa using ofText?_placedText hhead h .nil

namespace Document

/-- **Optional links, and blanks before links, do not change the type of a chain** unless a call is
optional: then the type is unknown. -/
theorem typeAt_optional (d : Document) (guesses : Bool) (offset : Nat) {head : List Char} {placed : List Placed}
    (hhead : isIdentifier head = true) (h : ∀ p ∈ placed, p.IsWritten) :
    d.typeAt guesses (head ++ placedText placed) offset =
      if placed.any Placed.isOptionalCall then .unknown
      else d.typeAt guesses (head ++ placedText (placed.map Placed.plain)) offset := by
  have hplain : ∀ p ∈ placed.map Placed.plain, p.IsWritten :=
    List.forall_mem_map.2 fun p hp => .tight p.link false (h p hp).link
  rw [typeAt, typeAt, Inference.typeAt, Inference.typeAt, ofText?_links_whole hhead h,
    ofText?_links_whole hhead hplain]
  cases hoptional : placed.any Placed.isOptionalCall with
  | true =>
    rw [chainOf?, hoptional]
    rfl
  | false =>
    rw [chainOf?_plain head hoptional]
    rfl

/-- An optional member and an optional index. -/
theorem typeAt_optional_members :
    let d := ofText "const a = { b: [1] };".toList .javascript
    (d.typeAt true "a.b[0]".toList 21).isPrimitive .number = true ∧
      d.typeAt true "a?.b?.[0]".toList 21 = d.typeAt true "a.b[0]".toList 21 := by
  intro d
  have hmember : Placed.IsWritten ⟨.member ['b'], true, []⟩ :=
    .tight (.member ['b']) true ⟨by decide, by decide +kernel⟩
  have hindex : Placed.IsWritten ⟨.index ['0'], true, []⟩ := .tight (.index ['0']) true (.plain rfl rfl rfl .nil)
  have htype := typeAt_optional d true 21 (by decide +kernel : isIdentifier ['a'] = true)
    (List.forall_mem_cons.2 ⟨hmember, List.forall_mem_cons.2 ⟨hindex, List.forall_mem_nil _⟩⟩)
  exact ⟨by decide +kernel, htype⟩

/-- An optional call is accepted by the parser, and its type is not that of the call. -/
theorem typeAt_optionalCall_ne :
    let d := ofText "const f = () => 1;".toList .javascript
    (parseExpression "f?.()".toList).toOption.isSome = true ∧
      d.typeAt false "f?.()".toList 18 ≠ d.typeAt false "f()".toList 18 := by
  intro d
  have hnumber : (d.typeAt false "f()".toList 18).isPrimitive .number = true := by decide +kernel
  have hsplit : AccessChain.ofText? "f?.()".toList = none := by decide +kernel
  have hunknown : d.typeAt false "f?.()".toList 18 = .unknown := by
    rw [typeAt, Inference.typeAt, hsplit]
  refine ⟨by decide +kernel, fun heq => ?_⟩
  rw [← heq, hunknown] at hnumber
  cases hnumber

end Document

end Typeahead
