/-
# The depth of a script

However a text is parsed, a bounded number of nested steps leads down the tree. How high the tree
is depends then on the chains in it alone.

Key definitions: `ParsedStrictly`, `nestingLimit`.
Key theorems: `ParsedStrictly.shaped`, `shaped_parseDocument`, `heightWithin_of_chains`.
-/
import Typeahead.Proofs.Depth.Statements
import Typeahead.Proofs.Parse.Same

namespace Typeahead

open Parse Grammar Node

/-- The tree is what a parse of the text that fails at the first fault has for its result. -/
inductive ParsedStrictly (text : List Char) : Node → Prop where
  | program {n : Node} : parseProgram text = .ok n → ParsedStrictly text n
  | expression {n : Node} : parseExpression text = .ok n → ParsedStrictly text n
  | statement {n : Node} : parseStatement text = .ok n → ParsedStrictly text n

/-- The most nested steps that lead down a tree that was parsed: thirteen for each level of the
parse, and one to the statements of a script. -/
def nestingLimit : Nat := 13 * maxParseDepth + 1

variable {depth : Nat} {text : List Char} {n : Node}

theorem makes_parse (q : Production) : Makes depth (Node.Shaped (room depth + q.extra)) (parse q) :=
  .look fun s => (parseLevel_shapes (s.rounds + 1) depth).makes q

theorem makes_program : Makes depth (Node.Shaped (room depth + 1)) program :=
  .offset fun _ => (Makes.list ((makes_parse .statement).map fun _ h => .single h)).bind fun _ h =>
    .look fun _ => .pure (.plain rfl trivial h)

theorem makes_document : Makes depth (fun result => result.1.Shaped (room depth + 1)) document :=
  .modify (fun _ => rfl) fun _ => .offset fun _ =>
    (Makes.list ((makes_parse .statement).statementOrSkip (proceeds_parse .statement))).bind fun _ h =>
      .look fun _ => .modify (fun _ => rfl) fun _ => .look fun _ => .pure (.plain rfl trivial h)

theorem Makes.result {x : Parse Node} {most : Nat} (hx : Makes 0 (Node.Shaped most) x)
    (h : x.result (.ofText text) = .ok n) : n.Shaped most := by
  rw [Parse.result] at h
  split at h <;> rename_i hrun <;> cases h
  exact (hx _ _ _ rfl hrun).2

/-- A tree that was parsed strictly is shaped, whatever the text. -/
theorem ParsedStrictly.shaped (h : ParsedStrictly text n) : n.Shaped nestingLimit := by
  cases h with
  | program h => exact makes_program.result h
  | expression h => exact ((makes_parse .assignment).result h).mono (Nat.le_succ _)
  | statement h => exact ((makes_parse .statement).result h).mono (Nat.le_succ _)

/-- The tree of a document is shaped, whatever its text. -/
theorem shaped_parseDocument (text : List Char) : (parseDocument text).1.Shaped nestingLimit := by
  rw [parseDocument]
  split <;> rename_i hrun
  · exact (makes_document _ _ _ rfl hrun).2
  · exact .leaf rfl trivial

/-- **The nesting of a tree is bounded but for its chains**: however a text is parsed, if no more
than `links` links of chains lie on any way down the tree, its height is that and no more than a
number that depends on how deep a parse may get alone. -/
theorem heightWithin_of_chains (h : ParsedStrictly text n ∨ (parseDocument text).1 = n) {links : Nat}
    (hlinks : n.ChainsWithin links) : n.HeightWithin (nestingLimit + links) := by
  have hshaped : n.Shaped nestingLimit := by
    rcases h with h | rfl
    · exact h.shaped
    · exact shaped_parseDocument text
  exact hshaped.heightWithin hlinks

/-- Two links, from a call to what is called and from there to its object. -/
theorem heightWithin_of_two_links : ∃ n, parseExpression "a.b(c)".toList = .ok n ∧ n.ChainsWithin 2 ∧
    n.HeightWithin (nestingLimit + 2) := by
  obtain ⟨n, hparse, hlinks⟩ : ∃ n, parseExpression "a.b(c)".toList = .ok n ∧ n.ChainsWithin 2 := by
    refine ⟨⟨⟨0, 6⟩, .call ⟨⟨0, 3⟩, .member ⟨⟨0, 1⟩, .identifier "a"⟩ ⟨⟨2, 3⟩, .identifier "b"⟩ false false⟩
      [⟨⟨4, 5⟩, .identifier "c"⟩] false⟩, eq_ok_of_same (by decide +kernel), .node ?_ ?_⟩
    · exact List.forall_mem_singleton.2 (.node (List.forall_mem_singleton.2 (.leaf rfl))
        (List.forall_mem_singleton.2 (.leaf rfl)))
    · exact List.forall_mem_singleton.2 (.leaf rfl)
  exact ⟨n, hparse, hlinks, heightWithin_of_chains (.inl (.expression hparse)) hlinks⟩

end Typeahead
