/-
# How deep a tree nests

A parse counts how many expressions and statements it is inside. Most pieces of a node are
parsed deeper than the node is, so few lie one in another. But some are parsed no deeper, and no
count is kept of them: the object of a member and what is called, which a loop reads before it
knows what follows, the operand on the left of an operator, and on the right of `**`; a
superclass; and a method, down through the patterns among its parameters. They form chains.

On the way down from a node to what it holds some steps are nested and the others are links of a
chain. The first are bounded by how deep a parse can get.

Key definitions: `NodeKind.chained`, `NodeKind.nested`, `Node.Descends`, `Node.HeightWithin`,
`Node.ChainsWithin`, `Node.Shaped`.
Key theorems: `contains_iff_descends`, `Node.Shaped.node`, `Node.Shaped.heightWithin`.
-/
import Typeahead.Proofs.Span
import Mathlib.Tactic.Common

namespace Typeahead

/-- The pieces directly inside a piece of the tree that are parsed no deeper than it is. -/
def NodeKind.chained : NodeKind → List Node
  | .member object _ _ _ => [object]
  | .call callee _ _ | .new callee _ => [callee]
  | .binary operator left right => if operator = .punct .asteriskAsterisk then [left, right] else [left]
  | .logical _ left _ => [left]
  | .objectLiteral properties => properties
  | .property _ value _ _ method => if method then [value] else []
  | .functionExpression parts => parts.params
  | .parameter _ pattern _ _ => pattern.toList
  | .classExpression parts | .classDeclaration parts => parts.superclass.toList
  | _ => []

/-- The other pieces directly inside a piece of the tree. -/
def NodeKind.nested : NodeKind → List Node
  | .member _ name _ _ => [name]
  | .call _ arguments _ | .new _ arguments => arguments
  | .binary operator _ right => if operator = .punct .asteriskAsterisk then [] else [right]
  | .logical _ _ right => [right]
  | .objectLiteral _ => []
  | .property key value _ _ method => if method then [key] else [key, value]
  | .functionExpression parts => [parts.body]
  | .parameter _ _ fallback _ => fallback.toList
  | .classExpression parts | .classDeclaration parts => parts.members
  | kind => kind.children

theorem mem_children_iff {kind : NodeKind} {n : Node} :
    n ∈ kind.children ↔ n ∈ kind.chained ∨ n ∈ kind.nested := by
  cases kind with
  | binary operator left right =>
    simp only [NodeKind.children, NodeKind.chained, NodeKind.nested]
    split <;> simp
  | property key value computed shorthand method =>
    simp only [NodeKind.children, NodeKind.chained, NodeKind.nested]
    split <;> simp [or_comm]
  | _ => simp [NodeKind.children, NodeKind.chained, NodeKind.nested]

/-- What is written short stands for more: a shorthand property has no computed key, and its value is its
key, or an assignment to it; a method of a class has a function for its value. -/
def NodeKind.Abbreviates : NodeKind → Prop
  | .property key value computed true _ => computed = false ∧
      (value = key ∨ ∃ fallback, value = ⟨⟨key.start, fallback.stop⟩, .assignment (.punct .equals) key fallback⟩)
  | .methodMember _ _ _ value => ∃ parts, value.kind = .functionExpression parts
  | _ => True

namespace Node

/-- The node `m` lies in `n`, so many nested steps and links of chains further down. -/
inductive Descends : Node → (nested links : Nat) → Node → Prop where
  | self (n : Node) : Descends n 0 0 n
  | nested {n c m : Node} {i j : Nat} : c ∈ n.kind.nested → Descends c i j m → Descends n (i + 1) j m
  | link {n c m : Node} {i j : Nat} : c ∈ n.kind.chained → Descends c i j m → Descends n i (j + 1) m

/-- Nothing lies more than so many steps down in the tree. -/
def HeightWithin (most : Nat) (n : Node) : Prop := ∀ i j m, n.Descends i j m → i + j ≤ most

/-- No more than so many links of chains lie on any way down the tree. -/
def ChainsWithin (most : Nat) (n : Node) : Prop := ∀ i j m, n.Descends i j m → j ≤ most

/-- The tree is as the grammar shapes it: no more than so many nested steps lie on any way down,
and shorthand properties and methods abbreviate others. -/
structure Shaped (most : Nat) (n : Node) : Prop where
  nests : ∀ i j m, n.Descends i j m → i ≤ most
  abbreviates : ∀ m, n.Contains m → m.kind.Abbreviates

/-- What lies in a tree lies some steps down in it, each nested or a link. -/
theorem contains_iff_descends {n m : Node} : n.Contains m ↔ ∃ i j, n.Descends i j m := by
  constructor
  · intro h
    induction h with
    | self n => exact ⟨0, 0, .self n⟩
    | inside hc _ ih =>
      obtain ⟨i, j, h⟩ := ih
      rcases mem_children_iff.1 hc with hc | hc
      · exact ⟨i, j + 1, .link hc h⟩
      · exact ⟨i + 1, j, .nested hc h⟩
  · rintro ⟨i, j, h⟩
    induction h with
    | self n => exact .self n
    | nested hc _ ih => exact .inside (mem_children_iff.2 (.inr hc)) ih
    | link hc _ ih => exact .inside (mem_children_iff.2 (.inl hc)) ih

/-- A way down may be taken from one node on the way to the next. -/
theorem Descends.trans {n m k : Node} {i j i' j' : Nat} (h : n.Descends i j m) (h' : m.Descends i' j' k) :
    n.Descends (i + i') (j + j') k := by
  induction h with
  | self => simpa using h'
  | nested hc _ ih =>
    rw [Nat.add_right_comm]
    exact .nested hc (ih h')
  | link hc _ ih =>
    rw [Nat.add_right_comm]
    exact .link hc (ih h')

/-- From a node that holds nothing no way leads down. -/
theorem Descends.of_leaf {range : TextRange} {kind : NodeKind} {m : Node} {i j : Nat}
    (h : Descends ⟨range, kind⟩ i j m) (hk : kind.children = []) : i = 0 ∧ j = 0 ∧ m = ⟨range, kind⟩ := by
  cases h with
  | self => exact ⟨rfl, rfl, rfl⟩
  | nested hc => exact absurd (mem_children_iff.2 (.inr hc)) (by simp [Node.kind, hk])
  | link hc => exact absurd (mem_children_iff.2 (.inl hc)) (by simp [Node.kind, hk])

namespace ChainsWithin

variable {most : Nat} {range : TextRange} {kind : NodeKind}

theorem leaf (hk : kind.children = []) : ChainsWithin most ⟨range, kind⟩ := by
  intro i j m h
  obtain ⟨-, rfl, -⟩ := h.of_leaf hk
  exact Nat.zero_le _

theorem node (hc : ∀ c ∈ kind.chained, c.ChainsWithin most) (hn : ∀ c ∈ kind.nested, c.ChainsWithin (most + 1)) :
    ChainsWithin (most + 1) ⟨range, kind⟩ := by
  intro i j m h
  cases h with
  | self => exact Nat.zero_le _
  | nested hmem h => exact hn _ hmem _ _ _ h
  | link hmem h => exact Nat.succ_le_succ (hc _ hmem _ _ _ h)

end ChainsWithin

/-- The nodes are shaped, all with no more than so many nested steps. -/
def AllShaped (most : Nat) (nodes : List Node) : Prop := ∀ n ∈ nodes, n.Shaped most

namespace AllShaped

variable {most most' : Nat} {n : Node} {l l' : List Node}

theorem nil : AllShaped most [] := by simp [AllShaped]

theorem cons (hn : n.Shaped most) (h : AllShaped most l) : AllShaped most (n :: l) :=
  List.forall_mem_cons.2 ⟨hn, h⟩

theorem single (hn : n.Shaped most) : AllShaped most [n] := .cons hn .nil

theorem append (h : AllShaped most l) (h' : AllShaped most l') : AllShaped most (l ++ l') :=
  List.forall_mem_append.2 ⟨h, h'⟩

end AllShaped

namespace Shaped

variable {most most' : Nat} {n m : Node} {range : TextRange} {kind : NodeKind}

theorem mono (h : n.Shaped most) (hle : most ≤ most') : n.Shaped most' :=
  ⟨fun i j m hm => Nat.le_trans (h.nests i j m hm) hle, h.abbreviates⟩

/-- The links of a node are as deep as it is, what else it holds is less deep. -/
theorem node (hlt : most < most') (ha : kind.Abbreviates) (hc : AllShaped most' kind.chained)
    (hn : AllShaped most kind.nested) : Shaped most' ⟨range, kind⟩ where
  nests i j m h := by
    cases h with
    | self => exact Nat.zero_le _
    | nested hmem h => exact Nat.le_trans (Nat.succ_le_succ ((hn _ hmem).nests _ _ _ h)) hlt
    | link hmem h => exact (hc _ hmem).nests _ _ _ h
  abbreviates m h := by
    cases h with
    | self => exact ha
    | inside hmem h =>
      rcases mem_children_iff.1 hmem with hmem | hmem
      · exact (hc _ hmem).abbreviates _ h
      · exact (hn _ hmem).abbreviates _ h

/-- A node without links. -/
theorem plain (hk : kind.chained = []) (ha : kind.Abbreviates) (hn : AllShaped most kind.nested) :
    Shaped (most + 1) ⟨range, kind⟩ :=
  .node (Nat.lt_succ_self most) ha (by simp [hk, AllShaped]) hn

/-- A node that holds nothing. -/
theorem leaf (hk : kind.children = []) (ha : kind.Abbreviates) : Shaped most ⟨range, kind⟩ where
  nests i j m h := by
    obtain ⟨rfl, -, -⟩ := h.of_leaf hk
    exact Nat.zero_le _
  abbreviates m h := by
    obtain ⟨i, j, h⟩ := contains_iff_descends.1 h
    obtain ⟨-, -, rfl⟩ := h.of_leaf hk
    exact ha

/-- How deep a tree nests does not depend on where its node stands. -/
theorem moved (h : n.Shaped most) : Shaped most ⟨range, n.kind⟩ where
  nests i j m hm := by
    cases hm with
    | self => exact Nat.zero_le _
    | nested hc hm => exact h.nests _ _ _ (.nested hc hm)
    | link hc hm => exact h.nests _ _ _ (.link hc hm)
  abbreviates m hm := by
    cases hm with
    | self =>
      have hkind := h.abbreviates n (.self n)
      exact hkind
    | inside hc hm => exact h.abbreviates _ (.inside hc hm)

/-- With the links of its chains counted too, a tree has a bounded height. -/
theorem heightWithin {links : Nat} (h : n.Shaped most) (hl : n.ChainsWithin links) :
    n.HeightWithin (most + links) :=
  fun i j m hm => Nat.add_le_add (h.nests i j m hm) (hl i j m hm)

end Shaped

theorem AllShaped.mono {most most' : Nat} {l : List Node} (h : AllShaped most l) (hle : most ≤ most') :
    AllShaped most' l := fun n hn => (h n hn).mono hle

end Node
end Typeahead
