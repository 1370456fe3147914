/-
# Statements of the global scope in two runs

Two runs bind the same statements of the global scope, each at its own places of a text, and one of
them has bound something more before. What it has bound is inserted in its tree. The runs stay in
step as long as the statements do not mention the name of which they know different types.

Key definitions: `Binder.Alongside`.
Key theorems: `Binder.Alongside.statements`, `Binder.spliced_of_inward`.
-/
import Typeahead.Proofs.Hoisting.Undisturbed
import Typeahead.Proofs.Hoisting.Walk

namespace Typeahead

/-! ### Trees at two places -/

namespace Node

/-- A node of a tree at another place is one of the tree. -/
theorem Contains.of_relocate {place : Nat → Nat} {n m' : Node} (h : (n.relocate place).Contains m') :
    ∃ m, n.Contains m ∧ m' = m.relocate place := by
  generalize hn : n.relocate place = n' at h
  induction h generalizing n with
  | self => exact ⟨n, .self n, hn.symm⟩
  | @inside n' c' m' hc _ ih =>
    rw [← hn, kind_relocate, NodeKind.children_relocate] at hc
    obtain ⟨c, hmem, rfl⟩ := List.mem_map.1 hc
    obtain ⟨m, hm, rfl⟩ := ih rfl
    exact ⟨m, .inside hmem hm, rfl⟩

theorem throughout_relocate {Q : NodeKind → Prop} {place : Nat → Nat}
    (hQ : ∀ kind, Q (kind.relocate place) ↔ Q kind) {n : Node} :
    (n.relocate place).Throughout Q ↔ n.Throughout Q := by
  constructor
  · intro h m hm
    exact (hQ m.kind).1 (kind_relocate place m ▸ h _ (contains_relocate place hm))
  · intro h m' hm'
    obtain ⟨m, hm, rfl⟩ := hm'.of_relocate
    exact (kind_relocate place m).symm ▸ (hQ m.kind).2 (h m hm)

variable {n n' : Node}

/-- What holds throughout a tree at one place holds at another, if it does not depend on the place. -/
theorem Moved.throughout {Q : NodeKind → Prop}
    (hQ : ∀ place kind, Q (NodeKind.relocate place kind) ↔ Q kind) (h : n.Moved n') :
    n'.Throughout Q ↔ n.Throughout Q := by
  obtain ⟨origin, f, g, -, -, rfl, rfl⟩ := h
  rw [throughout_relocate (hQ g), throughout_relocate (hQ f)]

theorem Moved.left (h : n.Moved n') : n.Moved n := by
  obtain ⟨origin, f, g, hf, -, hn, -⟩ := h
  exact ⟨origin, f, f, hf, hf, hn, hn⟩

end Node

theorem forall₂_moved_left {l l' : List Node} (h : List.Forall₂ Node.Moved l l') : List.Forall₂ Node.Moved l l := by
  induction h with
  | nil => exact .nil
  | cons hn _ ih => exact .cons hn.left ih

namespace Binder

open ScopeTree

variable {i : Insertion} {discord : Option Discord} {b b' c : Binder}

/-! ### Runs in the global scope -/

/-- Two states in which the global scope is open. One has scopes that the other does not have. -/
structure Alongside (i : Insertion) (discord : Option Discord) (b b' : Binder) : Prop where
  trees : b.tree.Spliced i discord b'.tree
  orderly : b.Orderly
  orderly' : b'.Orderly
  current : b.current = root
  current' : b'.current = root
  tracks : b'.tracksAssignments = b.tracksAssignments

namespace Alongside

/-- **A statement that does not mention the name with two types** is bound in step, wherever it stands. -/
theorem statement (h : Alongside i discord b b') {n n' : Node} (hn : n.Moved n')
    (hname : ∀ d ∈ discord, ¬ n.Mentions d.name) :
    Alongside i discord (statement n b) (statement n' b') := by
  have hcurrent : ∀ {c : Binder} (n : Node), c.Orderly → (Binder.statement n c).current = c.current :=
    fun n hc => (keeps_statement n _ hc.valid).current
  have horderly := stable_statement stable_orderly n (fun _ _ => trivial) h.orderly
  have horderly' := stable_statement stable_orderly n' (fun _ _ => trivial) h.orderly'
  have hback := (hcurrent n h.orderly).trans h.current
  have hback' := (hcurrent n' h.orderly').trans h.current'
  obtain ⟨origin, f, g, hf, hg, rfl, rfl⟩ := hn
  -- no scope that is there covers the tree
  let p : Pace := ⟨i, discord, f, g, hf, hg, b.tree.size, Nat.zero_lt_of_lt h.orderly.valid⟩
  have hpaired : Paired p b b' := {
    trees := h.trees
    matched := fun id s _ hid hs _ => absurd (lt_size_of_frame? hs) (Nat.not_lt.2 hid)
    current := by rw [h.current', h.current, Pace.shift, i.shift_root]
    tracks := h.tracks
    valid := h.orderly.valid
    inside := .inl h.current
    first := Nat.le_refl _
    starts := fun s s' hs hs' => by
      obtain ⟨r, hr, -, hstart⟩ := h.orderly.root
      obtain ⟨r', hr', -, hstart'⟩ := h.orderly'.root
      cases hs.symm.trans hr
      cases hs'.symm.trans hr'
      exact ⟨hstart, hstart'⟩
    keyed := h.orderly.keyed }
  have havoids : origin.Avoids p.hidden := by
    intro m hm name hhidden heq
    obtain ⟨d, hd, rfl⟩ := Option.map_eq_some_iff.1 hhidden
    exact hname d hd (Node.Mentions.relocate f ⟨m, hm, heq⟩)
  have hbound := paired_statement origin havoids hpaired
  exact ⟨hbound.trees, horderly, horderly', hback, hback', hbound.tracks⟩

/-- **Statements that do not mention the name with two types** are bound in step. -/
theorem statements {l l' : List Node} (hl : List.Forall₂ Node.Moved l l')
    (hname : ∀ n ∈ l, ∀ d ∈ discord, ¬ n.Mentions d.name)
    (h : Alongside i discord b b') : Alongside i discord (statements l b) (statements l' b') := by
  induction hl generalizing b b' with
  | nil => exact h
  | cons hn _ ih =>
    exact ih (fun m hm => hname m (List.mem_cons_of_mem _ hm)) (h.statement hn (hname _ List.mem_cons_self))

/-- Another symbol is given to the name with two types. -/
theorem redefine {discord' : Option Discord} (h : Alongside i discord b b') (symbol : Symbol)
    (hname : ∀ d ∈ discord, d.name = symbol.name)
    (hsame : ∀ name, name = symbol.name → (∀ d ∈ discord', d.name ≠ name) → b'.tree.symbol? root name = some symbol)
    (hdiscord : ∀ d ∈ discord', d.name = symbol.name ∧ d.here = symbol ∧ b'.tree.symbol? root d.name = some d.there) :
    Alongside i discord' { b with tree := b.tree.define root symbol } b' := by
  have hroot : root < b.tree.size := Nat.zero_lt_of_lt h.orderly.valid
  have hrelabels := Relabels.define b root symbol
  refine ⟨?_, h.orderly.relabels hrelabels (h.orderly.keyed.define _ _), h.orderly', h.current, h.current', h.tracks⟩
  exact {
    symbol := fun id name hid => by
      rw [symbol?_define]
      split
      · rename_i hall
        obtain ⟨rfl, -, rfl⟩ := hall
        rw [i.shift_root]
        exact hsame _ rfl (hid rfl)
      · rename_i hnot
        refine h.trees.symbol id name fun heq d hd hdname => hnot ⟨heq.symm, heq ▸ hroot, ?_⟩
        rw [← hname d hd, hdname]
    discord := fun d hd => by
      obtain ⟨hdname, hhere, hthere⟩ := hdiscord d hd
      rw [symbol?_define, if_pos ⟨rfl, hroot, hdname.symm⟩, hhere]
      exact ⟨rfl, hthere⟩
    place := hrelabels.size ▸ h.trees.place
    size := by rw [hrelabels.size, h.trees.size]
    frame := fun id s hs => by
      rw [hrelabels.frame] at hs
      exact h.trees.frame id s hs
    inserted := h.trees.inserted }

end Alongside

/-! ### What a walk inserts -/

/-- **What a walk without classes adds to the global scope is inserted** in a tree that has the scopes
from before. -/
theorem spliced_of_inward {t : ScopeTree} (hb : b.Orderly) (h : c.Inward b.tree.size b.tree)
    (hframe : ∀ id, t.frame? id = b.tree.frame? id) (hsize : t.size = b.tree.size)
    (hsymbol : ∀ id ≠ root, ∀ name, t.symbol? id name = b.tree.symbol? id name)
    (hroot : ∀ name, (∀ d ∈ discord, d.name ≠ name) → c.tree.symbol? root name = t.symbol? root name)
    (hdiscord : ∀ d ∈ discord, t.symbol? root d.name = some d.here ∧ c.tree.symbol? root d.name = some d.there) :
    t.Spliced ⟨b.tree.size, c.tree.size - b.tree.size, h.behind_root⟩ discord c.tree := by
  let i : Insertion := ⟨b.tree.size, c.tree.size - b.tree.size, h.behind_root⟩
  have hstays : ∀ {id}, id < b.tree.size → i.shift id = id := fun hid => if_pos hid
  have hgrown : c.tree.size = b.tree.size + i.count := (Nat.add_sub_cancel' h.grown).symm
  have hparent : ∀ {id s}, b.tree.frame? id = some s → s.parent.map i.shift = s.parent := by
    intro id s hs
    cases hparent : s.parent with
    | none => rfl
    | some p => exact congrArg some (hstays (hb.parents id s hs p hparent))
  have hnone : ∀ {tree : ScopeTree} {id name}, tree.size ≤ id → tree.symbol? id name = none := fun hid => by
    rw [symbol?, get?_eq_none_iff.2 hid]
    rfl
  exact {
    symbol := fun id name hid => by
      by_cases hlt : id < b.tree.size
      · rw [show Insertion.shift _ id = id from hstays hlt]
        by_cases heq : id = root
        · subst heq
          exact hroot name (hid rfl)
        · rw [h.symbols id hlt heq, hsymbol id heq]
      · have hle := Nat.not_lt.1 hlt
        have hle' : c.tree.size ≤ id + i.count := hgrown ▸ Nat.add_le_add_right hle _
        rw [show Insertion.shift _ id = id + i.count from i.shift_of_le hle, hnone hle', hnone (hsize ▸ hle)]
    discord := hdiscord
    place := Nat.le_of_eq hsize.symm
    size := by rw [hsize]; exact hgrown
    frame := fun id s hs => by
      rw [hframe] at hs
      have hlt := lt_size_of_frame? hs
      rw [show Insertion.shift _ id = id from hstays hlt]
      by_cases heq : id = root
      · subst heq
        obtain ⟨r, children, hr, -, hr'⟩ := h.root
        cases hs.symm.trans hr
        exact ⟨_, hr', rfl, (hparent hs).symm, rfl, rfl, rfl⟩
      · exact ⟨s, (h.frames id hlt heq).trans hs, rfl, (hparent hs).symm, rfl, rfl, rfl⟩
    inserted := fun id s' hs' hother => by
      refine (h.added id s' (Nat.not_lt.1 fun hlt => hother id (hstays hlt)) hs').1 }

end Binder
end Typeahead
