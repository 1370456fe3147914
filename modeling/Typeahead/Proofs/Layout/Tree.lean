/-
# The layout of a tree

In a tree that was parsed the pieces of a node follow one another: each starts no sooner than
the node does, and everything in it stops before the next piece starts. A class has its
superclass before its braces and its members behind the opening one. A node covers at least
one offset, but it need not reach as far as its pieces do, where the text breaks off.

Scopes nest in a tree, and how deep they do is bounded by how deep the parse was nested.

Key definitions: `NodeKind.pieces`, `InOrder`, `Node.Placed`, `Node.ScopesWithin`.
Key theorems: `Node.EndsWithin.of_mem`, `Node.Placed.of_mem`, `InOrder.append`.
-/
import Typeahead.Proofs.Span
import Mathlib.Tactic.Common

namespace Typeahead

/-- The pieces directly inside a piece of the tree, in the order of the text. The key of a
shorthand property is part of its value. -/
def NodeKind.pieces : NodeKind → List Node
  | .property key value computed shorthand _ => if shorthand && !computed then [value] else [key, value]
  | .doWhile body test => [body, test]
  | kind => kind.children

theorem mem_children_of_mem_pieces {kind : NodeKind} {n : Node} (h : n ∈ kind.pieces) : n ∈ kind.children := by
  cases kind with
  | property key value computed shorthand method =>
    rw [NodeKind.pieces] at h
    split at h
    · exact List.mem_cons_of_mem _ h
    · exact h
  | doWhile => simpa [NodeKind.pieces, NodeKind.children, or_comm] using h
  | _ => exact h

/-- The kinds of nodes that open a scope of their own. -/
def NodeKind.opensScope : NodeKind → Bool
  | .arrowFunction .. | .functionExpression _ | .functionDeclaration _ | .classExpression _
  | .classDeclaration _ | .block _ | .for .. | .forInOf .. | .switch .. | .catchClause .. => true
  | _ => false

/-- What a class extends. -/
def NodeKind.superclass? : NodeKind → Option Node
  | .classExpression parts | .classDeclaration parts => parts.superclass
  | _ => none

/-- What an item of an object that serves as a pattern takes apart into: a value, but no
method, which is no pattern and is not bound. -/
def Node.unpackedItem : Node → List Node
  | ⟨_, .property _ ⟨_, .functionExpression _⟩ _ _ _⟩ => []
  | ⟨_, .property _ value _ _ _⟩ => [value]
  | ⟨_, .spread argument⟩ => [argument]
  | _ => []

/-- What a pattern takes apart into. -/
def Node.unpacked : Node → List Node
  | ⟨_, .objectLiteral items⟩ => items.flatMap Node.unpackedItem
  | n => [n]

/-- The pieces of a node in which scopes are counted. -/
def NodeKind.counted : NodeKind → List Node
  | .parameter _ pattern fallback _ => pattern.toList.flatMap Node.unpacked ++ fallback.toList
  | .variableDeclarator target init => target.unpacked ++ init.toList
  | kind => kind.children

/-- The pieces in the scope of a node: all but a superclass. -/
def NodeKind.scoped : NodeKind → List Node
  | .classExpression parts | .classDeclaration parts => parts.members
  | kind => kind.counted

/-- The pieces follow one another, the first no sooner than at an offset. -/
structure InOrder (first : Nat) (nodes : List Node) : Prop where
  starts : ∀ n ∈ nodes, first ≤ n.start
  apart : nodes.Pairwise fun a b => a.EndsWithin b.start

/-- The braces of a class stand between its superclass and its members, and those of a switch
after what is switched on. -/
def NodeKind.Braced (range : TextRange) : NodeKind → Prop
  | .classExpression parts | .classDeclaration parts =>
    range.start ≤ parts.bodyRange.start ∧ parts.bodyRange.start < parts.bodyRange.stop ∧
      (∀ n ∈ parts.superclass, n.EndsWithin parts.bodyRange.start) ∧
      ∀ n ∈ parts.members, parts.bodyRange.start ≤ n.start
  | .switch discriminant _ => discriminant.EndsWithin range.stop
  | _ => True

namespace Node

/-- The pieces of the tree are in order everywhere in it. -/
inductive Placed : Node → Prop where
  | mk {range : TextRange} {kind : NodeKind} : range.start < range.stop →
      InOrder range.start kind.pieces → kind.Braced range → (∀ n ∈ kind.pieces, Placed n) →
      Placed ⟨range, kind⟩

/-- Every node of the tree ends where what it holds ends, or later. -/
def Tight (n : Node) : Prop := ∀ m, n.Contains m → m.EndsWithin m.stop

/-- At most so many scopes lie one in another in the tree. A superclass is outside the scope of
its class. -/
inductive ScopesWithin : Nat → Node → Prop where
  | plain {most : Nat} {range : TextRange} {kind : NodeKind} : kind.opensScope = false →
      (∀ n ∈ kind.counted, ScopesWithin most n) → ScopesWithin most ⟨range, kind⟩
  | scope {most : Nat} {range : TextRange} {kind : NodeKind} :
      (∀ n ∈ kind.superclass?, ScopesWithin (most + 1) n) → (∀ n ∈ kind.scoped, ScopesWithin most n) →
      ScopesWithin (most + 1) ⟨range, kind⟩

/-- At most so many scopes lie one in another in what a pattern takes apart into. -/
def PatternWithin (most : Nat) (n : Node) : Prop := ∀ m ∈ n.unpacked, m.ScopesWithin most

/-! ### Where a tree ends -/

variable {last : Nat} {n m : Node}

theorem EndsWithin.mono {last' : Nat} (h : n.EndsWithin last) (hle : last ≤ last') :
    n.EndsWithin last' := fun m hm r hr => Nat.le_trans (h m hm r hr) hle

theorem EndsWithin.stop_le (h : n.EndsWithin last) : n.stop ≤ last :=
  h n (.self n) n.range List.mem_cons_self

theorem Contains.trans {n m k : Node} (h : n.Contains m) (h' : m.Contains k) : n.Contains k := by
  induction h with
  | self => exact h'
  | inside hc _ ih => exact .inside hc (ih h')

theorem EndsWithin.of_contains (h : n.EndsWithin last) (hm : n.Contains m) : m.EndsWithin last :=
  fun k hk => h k (hm.trans hk)

theorem EndsWithin.of_mem {range : TextRange} {kind : NodeKind} (h : EndsWithin last ⟨range, kind⟩)
    (hm : m ∈ kind.children) : m.EndsWithin last := h.of_contains (.inside hm (.self m))

/-- A tree ends where its node, the braces of a class, and its pieces end. -/
theorem EndsWithin.mk {range : TextRange} {kind : NodeKind} (hr : range.stop ≤ last)
    (hb : ∀ r ∈ kind.classBody?, r.stop ≤ last) (hc : ∀ n ∈ kind.children, n.EndsWithin last) :
    EndsWithin last ⟨range, kind⟩ := by
  intro m hm r hr'
  cases hm with
  | self =>
    rcases List.mem_cons.1 hr' with rfl | hr'
    · exact hr
    · exact hb r (Option.mem_toList.1 hr')
  | inside hc' hm => exact hc _ hc' m hm r hr'

theorem EndsWithin.body_le {range r : TextRange} {kind : NodeKind} (h : EndsWithin last ⟨range, kind⟩)
    (hr : r ∈ kind.classBody?) : r.stop ≤ last :=
  h _ (.self _) r (List.mem_cons_of_mem _ (Option.mem_toList.2 hr))

theorem Tight.of_contains (h : n.Tight) (hm : n.Contains m) : m.Tight := fun k hk => h k (hm.trans hk)

theorem Tight.endsWithin (h : n.Tight) : n.EndsWithin n.stop := h n (.self n)

/-- A node is tight if it ends where its pieces end or later, and they are tight. -/
theorem Tight.mk {range : TextRange} {kind : NodeKind} (h : EndsWithin range.stop ⟨range, kind⟩)
    (hc : ∀ n ∈ kind.children, n.Tight) : Tight ⟨range, kind⟩ := by
  intro m hm
  cases hm with
  | self => exact h
  | inside hc' hm => exact hc _ hc' m hm

/-! ### Pieces of a tree that is in order -/

theorem Placed.start_lt_stop (h : n.Placed) : n.start < n.stop := by
  cases h with
  | mk h => exact h

theorem Placed.inOrder {range : TextRange} {kind : NodeKind} (h : Placed ⟨range, kind⟩) :
    InOrder range.start kind.pieces := by
  cases h with
  | mk _ h => exact h

theorem Placed.braced {range : TextRange} {kind : NodeKind} (h : Placed ⟨range, kind⟩) :
    kind.Braced range := by
  cases h with
  | mk _ _ h => exact h

theorem Placed.of_mem {range : TextRange} {kind : NodeKind} (h : Placed ⟨range, kind⟩)
    (hm : m ∈ kind.pieces) : m.Placed := by
  cases h with
  | mk _ _ _ h => exact h m hm

/-! ### Scopes in scopes -/

theorem superclass_or_scoped {kind : NodeKind} (h : n ∈ kind.counted) :
    n ∈ kind.superclass? ∨ n ∈ kind.scoped := by
  cases kind with
  | classExpression | classDeclaration =>
    rcases List.mem_append.1 h with h | h
    · exact .inl (Option.mem_toList.1 h)
    · exact .inr h
  | _ => exact .inr h

theorem ScopesWithin.mono {most most' : Nat} (h : n.ScopesWithin most) (hle : most ≤ most') :
    n.ScopesWithin most' := by
  induction h generalizing most' with
  | plain hk _ ih => exact .plain hk fun n hn => ih n hn hle
  | scope _ _ ihs ihc =>
    obtain ⟨k, rfl⟩ : ∃ k, most' = k + 1 := ⟨most' - 1, by omega⟩
    exact .scope (fun n hn => ihs n hn hle) fun n hn => ihc n hn (by omega)

theorem ScopesWithin.of_mem {most : Nat} {range : TextRange} {kind : NodeKind}
    (h : ScopesWithin most ⟨range, kind⟩) (hm : m ∈ kind.counted) : m.ScopesWithin most := by
  cases h with
  | plain _ hc => exact hc m hm
  | scope hs hc =>
    rcases superclass_or_scoped hm with hm | hm
    · exact hs m hm
    · exact (hc m hm).mono (Nat.le_succ _)

theorem ScopesWithin.of_superclass {most : Nat} {range : TextRange} {kind : NodeKind}
    (h : ScopesWithin most ⟨range, kind⟩) (hm : m ∈ kind.superclass?) : m.ScopesWithin most := by
  refine h.of_mem ?_
  cases kind with
  | classExpression | classDeclaration => exact List.mem_append_left _ (Option.mem_toList.2 hm)
  | _ => cases hm

/-- In the scope of a node one scope fewer lies in another. -/
theorem ScopesWithin.of_scope {most : Nat} {range : TextRange} {kind : NodeKind}
    (h : ScopesWithin most ⟨range, kind⟩) (hk : kind.opensScope = true) :
    ∃ k, most = k + 1 ∧ ∀ n ∈ kind.scoped, n.ScopesWithin k := by
  cases h with
  | plain hp => rw [hk] at hp; cases hp
  | scope _ hc => exact ⟨_, rfl, hc⟩

end Node

/-! ### Pieces in order -/

namespace InOrder

variable {first : Nat} {a b : Node} {l l' : List Node}

theorem nil : InOrder first [] := ⟨by simp, .nil⟩

theorem mono {first' : Nat} (h : InOrder first l) (hle : first' ≤ first) : InOrder first' l :=
  ⟨fun n hn => Nat.le_trans hle (h.starts n hn), h.apart⟩

theorem append {middle : Nat} (h : InOrder first l) (h' : InOrder middle l')
    (hl : ∀ n ∈ l, n.EndsWithin middle) (hle : first ≤ middle) : InOrder first (l ++ l') where
  starts n hn := by
    rcases List.mem_append.1 hn with hn | hn
    · exact h.starts n hn
    · exact Nat.le_trans hle (h'.starts n hn)
  apart := List.pairwise_append.2
    ⟨h.apart, h'.apart, fun a ha b hb => (hl a ha).mono (h'.starts b hb)⟩

end InOrder

end Typeahead
