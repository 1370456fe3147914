/-
# The outline of the scopes

Where a scope lies, under which scope and over which, does not depend on the names it holds.
Only opening a scope and leaving it change the outline of a tree; whatever else the binder does
leaves it as it is.

Key definitions: `Outline`, `ScopeTree.outline?`, `Binder.SameOutline`.
Key theorems: `Binder.get?_enter`, `Binder.get?_leave`, `Binder.outline?_enter`, `Binder.outline?_leave`.
-/
import Mathlib.Tactic.Common
import Typeahead.Scope.Binding

namespace Typeahead

/-- What is left of a scope without its names. -/
structure Outline where
  parent : Option ScopeId
  children : List ScopeId
  start : Nat
  stop : Nat
  depth : Nat

/-- The outline of a scope. -/
def Scope.outline (scope : Scope) : Outline :=
  ⟨scope.parent, scope.children, scope.start, scope.stop, scope.depth⟩

namespace ScopeTree

variable {tree : ScopeTree} {id other : ScopeId} {o : Outline}

/-- The outline of the scope of an id. -/
def outline? (tree : ScopeTree) (id : ScopeId) : Option Outline := (tree.get? id).map (·.outline)

theorem outline?_eq_some : tree.outline? id = some o ↔ ∃ s, tree.get? id = some s ∧ s.outline = o :=
  Option.map_eq_some_iff

theorem lt_size_of_outline? (h : tree.outline? id = some o) : id < tree.size := by
  obtain ⟨s, hs, -⟩ := outline?_eq_some.1 h
  exact (Array.getElem?_eq_some_iff.1 hs).1

theorem exists_outline? (h : id < tree.size) : ∃ o, tree.outline? id = some o :=
  ⟨_, outline?_eq_some.2 ⟨_, Array.getElem?_eq_getElem h, rfl⟩⟩

theorem get?_modify (change : Scope → Scope) :
    (tree.modify id change).get? other = if id = other then (tree.get? other).map change else tree.get? other :=
  Array.getElem?_modify

theorem size_modify (change : Scope → Scope) : (tree.modify id change).size = tree.size := Array.size_modify

/-- A change of what a scope holds leaves the outline as it is. -/
theorem outline?_modify {change : Scope → Scope} (h : ∀ s, (change s).outline = s.outline) :
    (tree.modify id change).outline? other = tree.outline? other := by
  rw [outline?, get?_modify, outline?]
  split
  · cases tree.get? other with
    | none => rfl
    | some s => exact congrArg some (h s)
  · rfl

/-- The children of a scope end no later than the last of them. -/
theorem stop_le_lastStop {ids : List ScopeId} (hid : id ∈ ids) (h : tree.outline? id = some o) :
    o.stop ≤ tree.lastStop ids := by
  obtain ⟨s, hs, rfl⟩ := outline?_eq_some.1 h
  have hle : ∀ (l : List ScopeId) (last : Nat),
      last ≤ l.foldl (fun last id => max last (((tree.get? id).map (·.stop)).getD 0)) last := by
    intro l
    induction l with
    | nil => exact fun last => Nat.le_refl last
    | cons a l ih => exact fun last => Nat.le_trans (Nat.le_max_left ..) (ih _)
  have hmem : ∀ (l : List ScopeId) (last : Nat), id ∈ l →
      s.stop ≤ l.foldl (fun last id => max last (((tree.get? id).map (·.stop)).getD 0)) last := by
    intro l
    induction l with
    | nil => exact fun _ hmem => by cases hmem
    | cons a l ih =>
      intro last hmem
      rcases List.mem_cons.1 hmem with rfl | hmem
      · refine Nat.le_trans ?_ (hle l _)
        dsimp only
        rw [hs]
        exact Nat.le_max_right ..
      · exact ih _ hmem
  exact hmem ids 0 hid

/-- The last end of some scopes is no later than an offset that none of them passes. -/
theorem lastStop_le {ids : List ScopeId} {last : Nat}
    (h : ∀ id ∈ ids, ∀ o, tree.outline? id = some o → o.stop ≤ last) : tree.lastStop ids ≤ last := by
  have hfold : ∀ (l : List ScopeId) (before : Nat), before ≤ last →
      (∀ id ∈ l, ∀ o, tree.outline? id = some o → o.stop ≤ last) →
      l.foldl (fun last id => max last (((tree.get? id).map (·.stop)).getD 0)) before ≤ last := by
    intro l
    induction l with
    | nil => exact fun _ hbefore _ => hbefore
    | cons a l ih =>
      intro before hbefore hl
      refine ih _ (Nat.max_le.2 ⟨hbefore, ?_⟩) fun id hid => hl id (List.mem_cons_of_mem _ hid)
      cases hs : tree.get? a with
      | none => exact Nat.zero_le _
      | some s => exact hl a List.mem_cons_self s.outline (outline?_eq_some.2 ⟨s, hs, rfl⟩)
  exact hfold ids 0 (Nat.zero_le _) h

end ScopeTree

namespace Binder

variable {b b' c : Binder}

/-- Before anything is bound there is the global scope only. -/
theorem outline?_start {tracksAssignments : Bool} {id : ScopeId} {o : Outline}
    (h : (Binder.start tracksAssignments).tree.outline? id = some o) :
    id = ScopeTree.root ∧ o = ⟨none, [], 0, 0, 0⟩ := by
  have hid : id < 1 := ScopeTree.lt_size_of_outline? h
  obtain rfl : id = ScopeTree.root := Nat.lt_one_iff.1 hid
  exact ⟨rfl, (Option.some.inj h).symm⟩

/-! ### What changes the outline -/

theorem get?_enter (kind : ScopeKind) (start : Nat) {above : Scope} (h : b.tree.get? b.current = some above) :
    (b.enter kind start).current = b.tree.size ∧ (b.enter kind start).tree.size = b.tree.size + 1 ∧
      ∀ id, (b.enter kind start).tree.get? id =
        if id = b.tree.size then some (.opened kind (some b.current) (max start above.start) (above.depth + 1))
        else if id = b.current then some { above with children := above.children ++ [b.tree.size] }
        else b.tree.get? id := by
  have henter : b.enter kind start = { b with
      tree := ⟨(b.tree.modify b.current fun s => { s with children := s.children ++ [b.tree.size] }).scopes.push
        (.opened kind (some b.current) (max start above.start) (above.depth + 1))⟩
      current := b.tree.size } := by
    rw [enter, ScopeTree.openScope?, h, Option.map_some]
  have hsize : (b.tree.modify b.current fun s => { s with children := s.children ++ [b.tree.size] }).scopes.size =
      b.tree.size := ScopeTree.size_modify _
  rw [henter]
  refine ⟨rfl, ?_, fun id => ?_⟩
  · rw [ScopeTree.size, Array.size_push, hsize]
  · rw [ScopeTree.get?, Array.getElem?_push, hsize]
    split
    · rfl
    · change (b.tree.modify b.current fun s => { s with children := s.children ++ [b.tree.size] }).get? id = _
      rw [ScopeTree.get?_modify]
      split
      · rename_i heq
        subst heq
        rw [if_pos rfl, h]
        rfl
      · rename_i hne
        rw [if_neg (Ne.symm hne)]

theorem get?_leave (stop : Nat) {own : Scope} (h : b.tree.get? b.current = some own) :
    (b.leave stop).current = own.parent.getD b.current ∧ (b.leave stop).tree.size = b.tree.size ∧
      ∀ id, (b.leave stop).tree.get? id =
        if id = b.current then some { own with stop := max (max stop own.start) (b.tree.lastStop own.children) }
        else b.tree.get? id := by
  refine ⟨?_, ScopeTree.size_modify _, fun id => ?_⟩
  · rw [leave, h, Option.bind_some]
  · rw [leave, ScopeTree.close, ScopeTree.get?_modify]
    split
    · rename_i heq
      subst heq
      rw [if_pos rfl, h]
      rfl
    · rename_i hne
      rw [if_neg (Ne.symm hne)]

theorem outline?_enter_max (kind : ScopeKind) {above : Outline} (start : Nat)
    (h : b.tree.outline? b.current = some above) :
    (b.enter kind start).current = b.tree.size ∧ (b.enter kind start).tree.size = b.tree.size + 1 ∧
      ∀ id, (b.enter kind start).tree.outline? id =
        if id = b.tree.size then
          some ⟨some b.current, [], max start above.start, max start above.start, above.depth + 1⟩
        else if id = b.current then some { above with children := above.children ++ [b.tree.size] }
        else b.tree.outline? id := by
  obtain ⟨s, hs, rfl⟩ := ScopeTree.outline?_eq_some.1 h
  obtain ⟨hcurrent, hsize, hget⟩ := get?_enter kind start hs
  refine ⟨hcurrent, hsize, fun id => ?_⟩
  rw [ScopeTree.outline?, hget]
  split
  · rfl
  · split
    · rfl
    · rfl

theorem outline?_enter (kind : ScopeKind) {above : Outline} {start : Nat}
    (h : b.tree.outline? b.current = some above) (hstart : above.start ≤ start) :
    (b.enter kind start).current = b.tree.size ∧ (b.enter kind start).tree.size = b.tree.size + 1 ∧
      ∀ id, (b.enter kind start).tree.outline? id =
        if id = b.tree.size then some ⟨some b.current, [], start, start, above.depth + 1⟩
        else if id = b.current then some { above with children := above.children ++ [b.tree.size] }
        else b.tree.outline? id := by
  have hmax : max start above.start = start := Nat.max_eq_left hstart
  simpa only [hmax] using outline?_enter_max kind start h

theorem outline?_leave (stop : Nat) {own : Outline} (h : b.tree.outline? b.current = some own) :
    (b.leave stop).current = own.parent.getD b.current ∧ (b.leave stop).tree.size = b.tree.size ∧
      ∀ id, (b.leave stop).tree.outline? id =
        if id = b.current then some { own with stop := max (max stop own.start) (b.tree.lastStop own.children) }
        else b.tree.outline? id := by
  obtain ⟨s, hs, rfl⟩ := ScopeTree.outline?_eq_some.1 h
  obtain ⟨hcurrent, hsize, hget⟩ := get?_leave stop hs
  refine ⟨hcurrent, hsize, fun id => ?_⟩
  rw [ScopeTree.outline?, hget]
  split
  · rfl
  · rfl

/-! ### What leaves it as it is -/

/-- One binder has the same scopes as the other, and the same one is open. -/
structure SameOutline (b b' : Binder) : Prop where
  current : b'.current = b.current
  size : b'.tree.size = b.tree.size
  outline : ∀ id, b'.tree.outline? id = b.tree.outline? id

namespace SameOutline

theorem rfl (b : Binder) : b.SameOutline b := ⟨Eq.refl _, Eq.refl _, fun _ => Eq.refl _⟩

theorem trans (h : b.SameOutline b') (h' : b'.SameOutline c) : b.SameOutline c :=
  ⟨h'.current.trans h.current, h'.size.trans h.size, fun id => (h'.outline id).trans (h.outline id)⟩

theorem modify (b : Binder) (id : ScopeId) {change : Scope → Scope} (h : ∀ s, (change s).outline = s.outline) :
    b.SameOutline { b with tree := b.tree.modify id change } :=
  ⟨Eq.refl _, ScopeTree.size_modify _, fun _ => ScopeTree.outline?_modify h⟩

theorem define (b : Binder) (id : ScopeId) (symbol : Symbol) :
    b.SameOutline { b with tree := b.tree.define id symbol } :=
  modify b id fun _ => Eq.refl _

theorem declare (b : Binder) (scope : ScopeId) (name : String) (kind : SymbolKind) (type : Option Ty) :
    b.SameOutline (b.declare scope name kind type) := by
  rw [Binder.declare]
  split
  · exact rfl b
  · exact define b scope _

theorem foldl {α : Type} {f : Binder → α → Binder} (hf : ∀ (b : Binder) (a : α), b.SameOutline (f b a)) :
    ∀ (l : List α) (b : Binder), b.SameOutline (l.foldl f b)
  | [], b => rfl b
  | a :: l, b => (hf b a).trans (foldl hf l (f b a))

theorem hoist (b : Binder) (statements : List Node) : b.SameOutline (b.hoist statements) := by
  refine foldl (fun b n => ?_) statements b
  split
  · split
    · exact declare ..
    · exact rfl b
  · exact rfl b

theorem declareMembers (b : Binder) (symbol : Symbol) : b.SameOutline (b.declareMembers symbol) := by
  rw [Binder.declareMembers]
  split
  · exact foldl (fun b _ => declare b ..) _ b
  · exact rfl b

theorem setClass (b : Binder) (symbol : Symbol) : b.SameOutline (b.setClass symbol) :=
  modify b b.current fun _ => Eq.refl _

theorem setFunction (b : Binder) (symbol : Option Symbol) (isStatic : Bool) :
    b.SameOutline (b.setFunction symbol isStatic) := by
  cases symbol with
  | none => exact rfl b
  | some symbol => exact modify b b.current fun _ => Eq.refl _

theorem retype (b : Binder) (id : ScopeId) (name : String) (type : Option Ty) :
    b.SameOutline { b with tree := b.tree.retype id name type } := by
  rw [ScopeTree.retype]
  split
  · exact modify b id fun _ => Eq.refl _
  · exact rfl b

theorem refineResult (b : Binder) (declaredIn : ScopeId) (name : String) (scope : ScopeId)
    (parts : FunctionParts Node) : b.SameOutline (b.refineResult declaredIn name scope parts) := by
  rw [Binder.refineResult]
  split
  · exact rfl b
  · split
    · exact retype b ..
    · exact rfl b

theorem trackAssignment (b : Binder) (expression : Node) : b.SameOutline (b.trackAssignment expression) := by
  rw [Binder.trackAssignment]
  split
  · split
    · split
      · dsimp only
        split
        · exact rfl b
        · exact retype b ..
      · exact rfl b
    · exact rfl b
  · exact rfl b

end SameOutline

end Binder
end Typeahead
