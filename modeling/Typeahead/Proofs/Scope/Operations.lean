/-
# The operations on a tree of scopes

Scopes are opened, closed and given symbols in any order, with any arguments. Each scope but the global
one then lies under one that was opened before it, which lists it once, and ends no sooner than it
starts. That it ends no later than the one it lies under takes more: a scope that is closed reaches to
the end of what it lists, but what it lists may be closed later, or again. Where every scope is closed
once, and after those in it, it does not.

Key definitions: `ScopeTree.Operation`, `ScopeTree.run`, `ScopeTree.closings`, `ScopeTree.ClosedInOrder`.
Key theorems: `ScopeTree.Operation.acts`, `ScopeTree.run_invariant`, `ScopeTree.stop_le_of_closedInOrder`,
`ScopeTree.linked_run`.
-/
import Typeahead.Proofs.Scope.Nesting

namespace Typeahead

namespace ScopeTree

/-- An operation on a tree of scopes. -/
inductive Operation where
  | openScope (parent : ScopeId) (kind : ScopeKind) (start : Nat)
  | close (id : ScopeId) (stop : Nat)
  | define (id : ScopeId) (symbol : Symbol)
  | remove (id : ScopeId) (name : String)
  | retype (id : ScopeId) (name : String) (type : Option Ty)
  | setClass (id : ScopeId) (symbol : Symbol)
  | setFunction (id : ScopeId) (symbol : Symbol) (isStatic : Bool)

namespace Operation

/-- The tree after an operation. Without the scope it is for an operation does nothing. -/
def apply : Operation → ScopeTree → ScopeTree
  | .openScope parent kind start, tree => ((tree.openScope? parent kind start).map (·.1)).getD tree
  | .close id stop, tree => tree.close id stop
  | .define id symbol, tree => tree.define id symbol
  | .remove id name, tree => tree.remove id name
  | .retype id name type, tree => tree.retype id name type
  | .setClass id symbol, tree => tree.setClass id symbol
  | .setFunction id symbol isStatic, tree => tree.setFunction id symbol isStatic

/-- The scope that an operation closes. -/
def closes? : Operation → ScopeTree → Option ScopeId
  | .close id _, tree => if id < tree.size then some id else none
  | _, _ => none

end Operation

/-- The tree after some operations. -/
def run (tree : ScopeTree) (operations : List Operation) : ScopeTree :=
  operations.foldl (fun tree o => o.apply tree) tree

/-- The scopes that some operations close, in order. -/
def closings : ScopeTree → List Operation → List ScopeId
  | _, [] => []
  | tree, o :: rest => (o.closes? tree).toList ++ closings (o.apply tree) rest

/-- From an empty tree on, every scope is closed once, and after those that lie in it. -/
structure ClosedInOrder (operations : List Operation) : Prop where
  once : ∀ id < (empty.run operations).size, (closings empty operations).count id = 1
  inner : ∀ id outer, outer ≠ id → (empty.run operations).Around id outer →
    (closings empty operations).idxOf id < (closings empty operations).idxOf outer

variable {tree : ScopeTree} {o : Operation} {operations : List Operation} {id : ScopeId}

theorem run_append (tree : ScopeTree) (before after : List Operation) :
    tree.run (before ++ after) = (tree.run before).run after := List.foldl_append ..

/-- **What every operation keeps some operations keep.** -/
theorem run_invariant {P : ScopeTree → Prop} (hstep : ∀ (o : Operation) {tree}, P tree → P (o.apply tree)) :
    ∀ (operations : List Operation) {tree : ScopeTree}, P tree → P (tree.run operations)
  | [], _, h => h
  | o :: rest, _, h => run_invariant hstep rest (hstep o h)

/-! ### What an operation does -/

/-- What an operation does to the outline of a tree: it adds a scope, or moves the end of the scope that
it closes, or leaves all as it is. -/
inductive Operation.Acts (o : Operation) (tree : ScopeTree) : Prop
  | opens {parent : ScopeId} {start : Nat} {above : Outline} (h : tree.Extends (o.apply tree) parent above start)
      (hnone : o.closes? tree = none)
  | closes {id : ScopeId} {stop : Nat} {own : Outline} (heq : o = .close id stop) (hown : tree.outline? id = some own)
      (hsize : (o.apply tree).size = tree.size)
      (h : ∀ other, (o.apply tree).outline? other = if other = id then
        some { own with stop := max (max stop own.start) (tree.lastStop own.children) } else tree.outline? other)
      (hsome : o.closes? tree = some id)
  | keeps (hsize : (o.apply tree).size = tree.size) (h : ∀ id, (o.apply tree).outline? id = tree.outline? id)
      (hnone : o.closes? tree = none)

namespace Operation

/-- To open a scope is what the binder does in the parent. -/
theorem apply_openScope (parent : ScopeId) (kind : ScopeKind) (start : Nat) (tree : ScopeTree) :
    (openScope parent kind start).apply tree = (Binder.enter ⟨tree, parent, false⟩ kind start).tree := by
  rw [apply, Binder.enter]
  cases tree.openScope? parent kind start <;> rfl

/-- **An operation adds a scope, or moves the end of one, or leaves the outline as it is.** -/
theorem acts (o : Operation) (tree : ScopeTree) : o.Acts tree := by
  cases o with
  | openScope parent kind start =>
    rcases Nat.lt_or_ge parent tree.size with hlt | hge
    · obtain ⟨above, habove⟩ := exists_outline? hlt
      have hextends : tree.Extends ((openScope parent kind start).apply tree) parent above start := by
        rw [apply_openScope]
        exact Binder.extends_enter (b := ⟨tree, parent, false⟩) kind start habove
      exact .opens hextends rfl
    · have hnone : tree.get? parent = none := Array.getElem?_eq_none hge
      have hsame : (openScope parent kind start).apply tree = tree := by
        rw [apply, openScope?, hnone]
        rfl
      exact .keeps (by rw [hsame]) (by simp [hsame]) rfl
  | close id stop =>
    rcases Nat.lt_or_ge id tree.size with hlt | hge
    · obtain ⟨own, hown⟩ := exists_outline? hlt
      obtain ⟨-, hsize, hout⟩ := Binder.outline?_leave (b := ⟨tree, id, false⟩) stop hown
      exact .closes rfl hown hsize hout (if_pos hlt)
    · refine .keeps (size_modify _) (fun other => ?_) (if_neg (Nat.not_lt.2 hge))
      have hnone : tree.get? id = none := Array.getElem?_eq_none hge
      rw [apply, ScopeTree.close, outline?, get?_modify]
      split
      · rename_i heq
        subst heq
        rw [outline?, hnone, Option.map_none]
      · rfl
  | define id symbol => exact .keeps (size_modify _) (fun _ => outline?_modify fun _ => rfl) rfl
  | remove id name => exact .keeps (size_modify _) (fun _ => outline?_modify fun _ => rfl) rfl
  | retype id name type =>
    have hsame := Binder.SameOutline.retype ⟨tree, id, false⟩ id name type
    exact .keeps hsame.size hsame.outline rfl
  | setClass id symbol => exact .keeps (size_modify _) (fun _ => outline?_modify fun _ => rfl) rfl
  | setFunction id symbol isStatic => exact .keeps (size_modify _) (fun _ => outline?_modify fun _ => rfl) rfl

end Operation

/-! ### Where every scope hangs -/

theorem hangs_empty : Hangs empty := (Binder.Nests.start 0 false).hangs

/-- Every operation leaves each scope under its parent. -/
theorem Hangs.apply (h : tree.Hangs) (o : Operation) : (o.apply tree).Hangs := by
  cases o.acts tree with
  | opens he => exact h.extends he
  | closes _ hown hsize hout => exact h.sameShape (.of_closed hown hsize hout)
  | keeps hsize hout => exact h.sameShape ⟨hsize, fun {other o} ho => ⟨o.stop, (hout other).trans ho⟩⟩

/-- No scope ends before it starts. -/
def Forward (tree : ScopeTree) : Prop := ∀ id o, tree.outline? id = some o → o.start ≤ o.stop

/-- Every operation leaves the ends behind the starts. -/
theorem Forward.apply (h : tree.Forward) (o : Operation) : (o.apply tree).Forward := by
  intro id own hown
  cases o.acts tree with
  | opens he =>
    rcases he.cases hown with rfl | ⟨old, hold⟩
    · cases he.new.symm.trans hown
      exact Nat.le_refl _
    · cases (he.old hold).symm.trans hown
      exact h id old hold
  | closes _ hclosed _ hout =>
    rw [hout] at hown
    split at hown
    · cases hown
      exact Nat.le_trans (Nat.le_max_right ..) (Nat.le_max_left ..)
    · exact h id own hown
  | keeps _ hout => exact h id own ((hout id).symm.trans hown)

theorem forward_empty : Forward empty := by
  intro id o ho
  have ho : (Binder.start false).tree.outline? id = some o := ho
  obtain ⟨-, rfl⟩ := Binder.outline?_start ho
  exact Nat.le_refl _

/-! ### Where a scope ends -/

/-- A scope that an operation does not close ends where it did. -/
theorem stop_apply {own : Outline} (hown : tree.outline? id = some own) (hnot : o.closes? tree ≠ some id) :
    ∃ own', (o.apply tree).outline? id = some own' ∧ own'.parent = own.parent ∧ own'.stop = own.stop := by
  cases o.acts tree with
  | opens he => exact ⟨_, he.old hown, rfl, rfl⟩
  | closes _ _ _ hout hsome =>
    rw [hout, if_neg fun heq : id = _ => hnot (heq ▸ hsome)]
    exact ⟨own, hown, rfl, rfl⟩
  | keeps _ hout =>
    rw [hout]
    exact ⟨own, hown, rfl, rfl⟩

/-- A scope that is not closed any more ends where it did. -/
theorem stop_run : ∀ {operations : List Operation} {tree : ScopeTree} {own : Outline}, tree.outline? id = some own →
    id ∉ closings tree operations →
      ∃ own', (tree.run operations).outline? id = some own' ∧ own'.parent = own.parent ∧ own'.stop = own.stop
  | [], _, own, hown, _ => ⟨own, hown, rfl, rfl⟩
  | o :: rest, tree, own, hown, hnot => by
    rw [closings, List.mem_append, not_or] at hnot
    obtain ⟨own', hown', hparent, hstop⟩ := stop_apply (o := o) hown fun heq => hnot.1 (by simp [heq])
    obtain ⟨own'', hown'', hparent', hstop'⟩ := stop_run hown' hnot.2
    exact ⟨own'', hown'', hparent'.trans hparent, hstop'.trans hstop⟩

theorem size_le_apply (o : Operation) (tree : ScopeTree) : tree.size ≤ (o.apply tree).size := by
  cases o.acts tree with
  | opens he => exact he.size ▸ Nat.le_succ _
  | closes _ _ hsize => exact Nat.le_of_eq hsize.symm
  | keeps hsize => exact Nat.le_of_eq hsize.symm

theorem closings_append : ∀ (tree : ScopeTree) (before after : List Operation),
    closings tree (before ++ after) = closings tree before ++ closings (tree.run before) after
  | _, [], _ => rfl
  | tree, o :: before, after => by
    rw [List.cons_append, closings, closings, closings_append, List.append_assoc]
    rfl

/-- A scope that is closed is there when it is. -/
theorem exists_of_mem_closings : ∀ {operations : List Operation} {tree : ScopeTree}, id ∈ closings tree operations →
    ∃ before stop after, operations = before ++ .close id stop :: after ∧ id < (tree.run before).size
  | [], _, h => by cases h
  | o :: rest, tree, h => by
    rcases List.mem_append.1 h with h | h
    · have hsome : o.closes? tree = some id := Option.mem_toList.1 h
      cases o.acts tree with
      | opens _ hnone | keeps _ _ hnone => cases hnone.symm.trans hsome
      | @closes own stop _ heq hown _ _ hsome' =>
        cases hsome'.symm.trans hsome
        exact ⟨[], stop, rest, heq ▸ rfl, lt_size_of_outline? hown⟩
    · obtain ⟨before, stop, after, rfl, hlt⟩ := exists_of_mem_closings h
      exact ⟨o :: before, stop, after, rfl, hlt⟩

/-- What has been closed is there. -/
theorem lt_size_of_mem_closings {operations : List Operation} (h : id ∈ closings tree operations) :
    id < (tree.run operations).size := by
  obtain ⟨before, stop, after, rfl, hlt⟩ := exists_of_mem_closings h
  rw [run_append]
  exact run_invariant (P := fun tree => id < tree.size) (fun o tree h => Nat.lt_of_lt_of_le h (size_le_apply o tree)) _ hlt

/-- **A scope that is closed once, and after one that lies right under it, ends no sooner than that one.** -/
theorem stop_le_of_closedInOrder (h : ClosedInOrder operations) {p : ScopeId} {own above : Outline}
    (hown : (empty.run operations).outline? id = some own) (hp : own.parent = some p)
    (habove : (empty.run operations).outline? p = some above) : own.stop ≤ above.stop := by
  have hangs : (empty.run operations).Hangs := run_invariant (fun o _ h => h.apply o) operations hangs_empty
  obtain ⟨_, habove', hlisted, -⟩ := hangs.of_parent hown hp
  cases habove.symm.trans habove'
  have hne : p ≠ id := Nat.ne_of_lt (hangs.lt_of_listed habove hlisted)
  have honce := h.once p (lt_size_of_outline? habove)
  have hinnerOnce := h.once id (lt_size_of_outline? hown)
  have horder := h.inner id p hne (.above hown hp (.self p))
  obtain ⟨before, stop, after, rfl, hlt⟩ := exists_of_mem_closings (List.count_pos_iff.1 (honce ▸ Nat.one_pos))
  -- the closings before that of the parent, its own, and those after it
  obtain ⟨old, hold⟩ := exists_outline? hlt
  have hclosings : closings empty (before ++ .close p stop :: after) =
      closings empty before ++ p :: closings ((Operation.close p stop).apply (empty.run before)) after := by
    rw [closings_append, closings, Operation.closes?, if_pos hlt]
    rfl
  rw [hclosings] at honce hinnerOnce horder
  simp only [List.count_append, List.count_cons_self, List.count_cons_of_ne hne] at honce hinnerOnce
  have hpBefore : p ∉ closings empty before := List.count_eq_zero.1 (by omega)
  have hpAfter : p ∉ closings ((Operation.close p stop).apply (empty.run before)) after :=
    List.count_eq_zero.1 (by omega)
  have hidBefore : id ∈ closings empty before := by
    by_contra hnot
    rw [List.idxOf_append, if_neg hnot, List.idxOf_append, if_neg hpBefore, List.idxOf_cons_self] at horder
    omega
  have hidAfter : id ∉ closings ((Operation.close p stop).apply (empty.run before)) after :=
    List.count_eq_zero.1 (by have := List.count_pos_iff.2 hidBefore; omega)
  -- when the parent is closed the scope is closed already, and is listed
  obtain ⟨inner, hinner⟩ := exists_outline? (lt_size_of_mem_closings hidBefore)
  obtain ⟨-, -, hout⟩ := Binder.outline?_leave (b := ⟨empty.run before, p, false⟩) stop hold
  have hout : ∀ other, ((Operation.close p stop).apply (empty.run before)).outline? other = if other = p then
      some { old with stop := max (max stop old.start) ((empty.run before).lastStop old.children) }
      else (empty.run before).outline? other := hout
  obtain ⟨own', hown', hparent, hstop⟩ := stop_run ((hout id).trans ((if_neg hne.symm).trans hinner)) hidAfter
  obtain ⟨above', habove', -, hstop'⟩ := stop_run ((hout p).trans (if_pos rfl)) hpAfter
  rw [run_append] at hown habove
  cases hown.symm.trans hown'
  cases habove.symm.trans habove'
  have hangsBefore : (empty.run before).Hangs := run_invariant (fun o _ h => h.apply o) before hangs_empty
  obtain ⟨_, hold', hmem, -⟩ := hangsBefore.of_parent hinner (hparent.symm.trans hp)
  cases hold.symm.trans hold'
  rw [hstop, hstop']
  exact Nat.le_trans (stop_le_lastStop hmem hinner) (Nat.le_max_right ..)

/-- **The links of every tree of scopes**, whatever the operations it comes from. Each scope but the
global one lies under one that was opened before it, which alone lists it, and once; it starts no sooner
than that one, and ends no sooner than it starts. If every scope is closed once, and after those that lie
in it, it also ends no later than the one it lies under. Nothing was then opened in a scope that was
closed. -/
theorem linked_run (operations : List Operation) :
    let tree := empty.run operations
    ∀ id s, tree.get? id = some s → id ≠ root → ∃ p above, s.parent = some p ∧ tree.get? p = some above ∧ p < id ∧
      above.children.count id = 1 ∧ (∀ q other, tree.get? q = some other → id ∈ other.children → q = p) ∧
      s.depth = above.depth + 1 ∧ above.start ≤ s.start ∧ s.start ≤ s.stop ∧
      (ClosedInOrder operations → s.stop ≤ above.stop) := by
  intro tree id s hs hne
  have hangs : tree.Hangs := run_invariant (fun o _ h => h.apply o) operations hangs_empty
  have hforward : tree.Forward := run_invariant (fun o _ h => h.apply o) operations forward_empty
  have ho := outline?_eq_some.2 ⟨s, hs, rfl⟩
  obtain ⟨p, _, hp, habove, hlt, hcount, hdepth, hstart⟩ := hangs.below ho hne
  obtain ⟨above, hget, rfl⟩ := outline?_eq_some.1 habove
  refine ⟨p, above, hp, hget, hlt, hcount, fun q other hother hmem => ?_, hdepth, hstart, hforward id _ ho,
    fun hclosed => stop_le_of_closedInOrder hclosed ho hp habove⟩
  obtain ⟨_, ho', hparent⟩ := hangs.listed (outline?_eq_some.2 ⟨other, hother, rfl⟩) hmem
  cases ho.symm.trans ho'
  exact Option.some.inj (hparent.symm.trans hp)

/-- The inner scope is closed at a later offset than the one around it, which reaches as far. -/
theorem linked_run_inner_longer :
    let operations : List Operation := [.openScope root .block 2, .openScope 1 .arrow 1, .close 2 9, .close 1 5,
      .close root 7]
    let tree := empty.run operations
    (∃ s, tree.get? 2 = some s ∧ 2 ≠ root) ∧ ClosedInOrder operations ∧
      ∃ s above, tree.get? 2 = some s ∧ s.parent = some 1 ∧ tree.get? 1 = some above ∧ above.start ≤ s.start ∧
        s.start ≤ s.stop ∧ s.stop ≤ above.stop := by
  intro operations tree
  have hsize : tree.size = 3 := by decide
  have hclosings : closings empty operations = [2, 1, 0] := by decide
  have hclosed : ClosedInOrder operations := by
    refine ⟨fun id hid => ?_, fun id outer hne ha => ?_⟩
    · rw [hclosings]
      have hcounts : ∀ id < 3, [2, 1, 0].count id = 1 := by decide
      exact hcounts id (hsize ▸ hid)
    · have hangs : tree.Hangs := run_invariant (fun o _ h => h.apply o) operations hangs_empty
      have hlt : id < 3 := by
        cases ha with
        | self => exact absurd rfl hne
        | above ho _ _ => exact hsize ▸ lt_size_of_outline? ho
      have horder : ∀ id < 3, ∀ outer < id, [2, 1, 0].idxOf id < [2, 1, 0].idxOf outer := by decide
      rw [hclosings]
      exact horder id hlt outer (Nat.lt_of_le_of_ne (hangs.le_of_around ha) hne)
  obtain ⟨s, hs, hparent⟩ : ∃ s, tree.get? 2 = some s ∧ s.parent = some 1 := ⟨_, rfl, rfl⟩
  obtain ⟨p, above, hp, habove, -, -, -, -, hstart, hstop, hinside⟩ := linked_run operations 2 s hs (by decide)
  cases hparent.symm.trans hp
  exact ⟨⟨s, hs, by decide⟩, hclosed, s, above, hs, hp, habove, hstart, hstop, hinside hclosed⟩

end ScopeTree
end Typeahead
