/-
# What the memory of parameter lists changes

The parser remembers where it tried to read the parameters of an arrow function in vain, and
does not try there again. A text that is read with no fault is read the same without that
memory, in every way to parse. Behind a fault it need not be: a parameter list that
was tried too deep fails for its depth alone, and recovery may come back to it from outside.

Key theorems: `result_memory`, `document_memory_at_limit`.
-/
import Typeahead.Proofs.Modes
import Typeahead.Proofs.Parse.Twins

namespace Typeahead

open Parse Grammar

variable {text : List Char} {P : Node}

/-- What a clean run of one script gives, a clean run with the other memory gives too. -/
theorem scriptNode_memory {recovering : Bool} (memory memory' : Bool)
    (h : ∃ body t, CleanRun (script (parseLevel (levelsOf text))) (.startOf text recovering memory) body t ∧
      P = scriptNode text body t) :
    ∃ body t, CleanRun (script (parseLevel (levelsOf text))) (.startOf text recovering memory') body t ∧
      P = scriptNode text body t := by
  obtain ⟨body, s, hrun, rfl⟩ := h
  obtain ⟨t, ht, hts⟩ := script_clean recovering recovering memory memory' (fun h₁ h₂ => by simp_all) hrun
  refine ⟨body, t, ht, ?_⟩
  rw [scriptNode, scriptNode, ParserState.current, ParserState.current, hts]

/-- A production over a text gives what a clean run of it reads. -/
theorem parse_ok {q : Production} {memory : Bool} : (parse q).result (.startOf text false memory) = .ok P ↔
    ∃ t, CleanRun (parseLevel (levelsOf text) q) (.startOf text false memory) P t := by
  rw [Parse.result, parse_of_parses ⟨rfl, rfl⟩ q]
  cases hrun : parseLevel (levelsOf text) q (.startOf text false memory) with
  | ok n t =>
    have hclean : t.faults = [] := ((parseLevel_proceeds _ q _).ok hrun).strict rfl
    constructor
    · intro h
      cases h
      exact ⟨t, hrun, hclean⟩
    · rintro ⟨t', h, -⟩
      cases hrun.symm.trans h
      rfl
  | error e t =>
    constructor
    · intro h
      cases h
    · rintro ⟨t', h, -⟩
      cases hrun.symm.trans h

/-- **A text is read with no fault with the memory of parameter lists if and only if it is without
it, and then as the same tree**: as a program, as one expression, statement or other production,
which may stop before the end of the text, and as a document. -/
theorem result_memory (text : List Char) (P : Node) :
    (program.result (.startOf text false true) = .ok P ↔ program.result (.startOf text false false) = .ok P) ∧
      (∀ q : Production, (parse q).result (.startOf text false true) = .ok P ↔
        (parse q).result (.startOf text false false) = .ok P) ∧
      (document.result (.startOf text false true) = .ok (P, []) ↔
        document.result (.startOf text false false) = .ok (P, [])) := by
  refine ⟨?_, fun q => ?_, ?_⟩
  · rw [program_ok, program_ok]
    exact ⟨scriptNode_memory _ _, scriptNode_memory _ _⟩
  · rw [parse_ok, parse_ok]
    exact ⟨fun ⟨_, h⟩ => clean_memory h, fun ⟨_, h⟩ => clean_memory h⟩
  · rw [document_ok, document_ok]
    exact ⟨scriptNode_memory _ _, scriptNode_memory _ _⟩

/-- The parameter list on the second line is tried at the limit of nesting and remembered; recovery
comes back to it from outside. With the memory there is a second fault. -/
theorem document_memory_at_limit :
    let text := '(' :: (List.replicate 98 '[' ++ "\n(a = 1) => a".toList)
    (document.result (.startOf text false true)).toOption.map (·.2.length) = some 2 ∧
      (document.result (.startOf text false false)).toOption.map (·.2.length) = some 1 := by
  decide +kernel

end Typeahead
