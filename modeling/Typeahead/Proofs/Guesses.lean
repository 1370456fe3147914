/-
# Guesses do not override what is known

A guess is made for a type of which nothing is known only, and without guesses nothing known ever
follows from such a type: each step from it leads to a type of which nothing is known again. So a
chain whose type is known without guesses has a known type before each of its steps, and none of
them is guessed at.

Key theorems: `Inference.stepType_unknown`, `Inference.chainType_guesses`, `Document.typeAt_guesses`.
-/
import Mathlib.Tactic.Common
import Typeahead.Document

namespace Typeahead

namespace Inference

variable {tree : ScopeTree} {id : ScopeId} {type : Ty} {guess : Option Ty}

/-- What is known is not guessed at. -/
theorem orGuess_of_known (inference : Inference) (h : type ≠ .unknown) : inference.orGuess type guess = type := by
  have hknown : type.isUnknown = false := by
    cases type with
    | unknown => exact absurd rfl h
    | _ => rfl
  rw [orGuess, Ty.orElse, hknown]
  exact ite_self _

/-- **Without guesses nothing is known after a step from a type of which nothing is known.** -/
theorem stepType_unknown (step : ChainStep) : stepType ⟨tree, false⟩ id .unknown step = .unknown := by
  cases step with
  | member name called => rfl
  | index text =>
    rw [stepType]
    split <;> rfl
  | call => rfl

/-- Nor after any steps. -/
theorem foldl_stepType_unknown : ∀ steps : List ChainStep,
    steps.foldl (stepType ⟨tree, false⟩ id) .unknown = .unknown
  | [] => rfl
  | step :: steps => by rw [List.foldl_cons, stepType_unknown, foldl_stepType_unknown steps]

/-- A head that is known without guesses is not guessed at. -/
theorem headType_guesses {head : String} (h : headType ⟨tree, false⟩ id head ≠ .unknown) :
    headType ⟨tree, true⟩ id head = headType ⟨tree, false⟩ id head := by
  by_cases hthis : head = "this"
  · rw [headType, if_pos hthis, headType, if_pos hthis]
  · by_cases hname : Text.isIdentifier head.toList = true
    · rw [headType, if_neg hthis, if_pos hname] at h ⊢
      rw [headType, if_neg hthis, if_pos hname]
      exact orGuess_of_known _ h
    · rw [headType, if_neg hthis, if_neg hname, headType, if_neg hthis, if_neg hname]

/-- Nor is a step. -/
theorem stepType_guesses {step : ChainStep} (h : stepType ⟨tree, false⟩ id type step ≠ .unknown) :
    stepType ⟨tree, true⟩ id type step = stepType ⟨tree, false⟩ id type step := by
  cases step with
  | member name called => exact orGuess_of_known _ h
  | index text => rfl
  | call => rfl

theorem foldl_stepType_guesses : ∀ (steps : List ChainStep) (type : Ty),
    steps.foldl (stepType ⟨tree, false⟩ id) type ≠ .unknown →
      steps.foldl (stepType ⟨tree, true⟩ id) type = steps.foldl (stepType ⟨tree, false⟩ id) type
  | [], _, _ => rfl
  | step :: steps, type, h => by
    rw [List.foldl_cons] at h
    -- were nothing known after the first step, nothing would be after the others
    have hstep : stepType ⟨tree, false⟩ id type step ≠ .unknown := fun hunknown =>
      h (by rw [hunknown, foldl_stepType_unknown])
    rw [List.foldl_cons, List.foldl_cons, stepType_guesses hstep]
    exact foldl_stepType_guesses steps _ h

/-- A chain whose type is known without guesses has the same type with them. -/
theorem chainType_guesses {chain : AccessChain} (h : chainType ⟨tree, false⟩ id chain ≠ .unknown) :
    chainType ⟨tree, true⟩ id chain = chainType ⟨tree, false⟩ id chain := by
  rw [chainType] at h
  have hhead : headType ⟨tree, false⟩ id chain.head ≠ .unknown := fun hunknown =>
    h (by rw [hunknown, foldl_stepType_unknown])
  rw [chainType, chainType, headType_guesses hhead]
  exact foldl_stepType_guesses chain.steps _ h

end Inference

namespace Document

/-- **A type that is known without guesses is the same with them**, for every text at every offset. -/
theorem typeAt_guesses (d : Document) (text : List Char) (offset : Nat) (h : d.typeAt false text offset ≠ .unknown) :
    d.typeAt true text offset = d.typeAt false text offset := by
  simp only [typeAt, inference, Inference.typeAt] at h ⊢
  split at h
  · exact Inference.chainType_guesses h
  · rfl

/-- The names suggest strings, but the types are known. -/
theorem typeAt_guesses_number :
    let d := ofText "const label = [{ title: 1 }];".toList .javascript
    let text := "label[0].title".toList
    (d.typeAt false text 29).isPrimitive .number = true ∧ d.typeAt true text 29 = d.typeAt false text 29 := by
  intro d text
  have hnumber : (d.typeAt false text 29).isPrimitive .number = true := by decide +kernel
  refine ⟨hnumber, typeAt_guesses d text 29 fun hunknown => ?_⟩
  rw [hunknown] at hnumber
  cases hnumber

end Document
end Typeahead
