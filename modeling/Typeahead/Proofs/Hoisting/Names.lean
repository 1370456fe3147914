/-
# The symbols of the scopes

What each step of the binder does to the symbols that the scopes hold. A scope is opened without any,
and no step but a declaration and a change of a type reaches the symbols of a scope.

Key theorems: `ScopeTree.symbol?_define`, `ScopeTree.symbol?_retype`, `Binder.symbol?_enter`,
`Binder.symbol?_leave`, `Binder.symbol?_declareMembers`, `Binder.trackAssignment_cases`.
-/
import Typeahead.Proofs.Completion.Labels
import Typeahead.Proofs.Scope.Additions

namespace Typeahead

namespace ScopeTree

variable {tree tree' : ScopeTree} {id other owner : ScopeId} {name : String}

theorem get?_eq_none_iff : tree.get? id = none ↔ tree.size ≤ id := Array.getElem?_eq_none_iff

theorem symbol?_modify {change : Scope → Scope} (h : ∀ s, (change s).symbols = s.symbols) :
    (tree.modify other change).symbol? id name = tree.symbol? id name := by
  rw [symbol?, get?_modify, symbol?]
  split
  · cases tree.get? id with
    | none => rfl
    | some s => simp only [Option.map_some, Option.bind_some, h]
  · rfl

theorem symbol?_close (tree : ScopeTree) (scope : ScopeId) (stop : Nat) (id : ScopeId) (name : String) :
    (tree.close scope stop).symbol? id name = tree.symbol? id name :=
  symbol?_modify fun _ => rfl

theorem symbol?_define (id other : ScopeId) (symbol : Symbol) (name : String) :
    (tree.define id symbol).symbol? other name =
      if id = other ∧ other < tree.size ∧ symbol.name = name then some symbol else tree.symbol? other name := by
  rw [symbol?, define, get?_modify, symbol?]
  by_cases hid : id = other
  · cases hs : tree.get? other with
    | none =>
      have hsize := Nat.not_lt.2 (get?_eq_none_iff.1 hs)
      simp [hid, hsize]
    | some s =>
      have hsize : other < tree.size := (Array.getElem?_eq_some_iff.1 hs).1
      simp [hid, hsize, Entries.get?_insert]
  · simp [hid]

theorem symbol?_retype (id other : ScopeId) (name own : String) (type : Option Ty) :
    (tree.retype id name type).symbol? other own =
      if id = other ∧ name = own then (tree.symbol? other own).map ({ · with type }) else tree.symbol? other own := by
  rw [retype]
  cases hsymbol : tree.symbol? id name with
  | none =>
    by_cases h : id = other ∧ name = own
    · obtain ⟨rfl, rfl⟩ := h
      simp [hsymbol]
    · simp [h]
  | some symbol =>
    rw [symbol?, get?_modify]
    by_cases hid : id = other
    · subst hid
      rw [symbol?] at hsymbol ⊢
      cases hs : tree.get? id with
      | none => simp [hs] at hsymbol
      | some s =>
        rw [hs, Option.bind_some] at hsymbol
        by_cases hname : name = own
        · subst hname
          simp [Entries.get?_insert, hsymbol]
        · simp [Entries.get?_insert, hname]
    · simp [hid, symbol?]

/-- A name is resolved to a symbol of a scope around. -/
theorem resolveWithScope?_eq_some {symbol : Symbol} (h : tree.resolveWithScope? id name = some (owner, symbol)) :
    owner ∈ tree.ancestors id ∧ tree.symbol? owner name = some symbol := by
  obtain ⟨own, hown, hbinding⟩ := List.exists_of_findSome?_eq_some h
  obtain ⟨found, hfound, heq⟩ := Option.map_eq_some_iff.1 hbinding
  cases heq
  exact ⟨hown, Option.eq_some_of_filter_eq_some hfound⟩

/-! ### Symbols under their names -/

theorem Keyed.name_eq (h : tree.Keyed) {symbol : Symbol} (hsymbol : tree.symbol? id name = some symbol) :
    symbol.name = name := by
  obtain ⟨s, hs, hget⟩ := Option.bind_eq_some_iff.1 hsymbol
  exact (h id s hs).named _ (Entries.mem_of_get? hget)

theorem Keyed.define (h : tree.Keyed) (id : ScopeId) (symbol : Symbol) : (tree.define id symbol).Keyed :=
  h.modify fun _ _ hs => hs.insert symbol

end ScopeTree

namespace Binder

open ScopeTree

variable {b : Binder} {id : ScopeId} {name : String}

theorem enter_of_none (h : b.tree.get? b.current = none) (kind : ScopeKind) (start : Nat) :
    b.enter kind start = b := by
  rw [enter, openScope?, h]
  rfl

theorem symbol?_enter (kind : ScopeKind) (start : Nat) (id : ScopeId) (name : String) :
    (b.enter kind start).tree.symbol? id name = b.tree.symbol? id name := by
  cases habove : b.tree.get? b.current with
  | none => rw [enter_of_none habove]
  | some above =>
    obtain ⟨-, -, hget⟩ := get?_enter kind start habove
    rw [symbol?, hget, symbol?]
    split
    · rename_i hid
      rw [get?_eq_none_iff.2 (Nat.le_of_eq hid.symm)]
      rfl
    · split
      · rename_i heq
        rw [heq, habove]
        rfl
      · rfl

theorem symbol?_leave (stop : Nat) (id : ScopeId) (name : String) :
    (b.leave stop).tree.symbol? id name = b.tree.symbol? id name := symbol?_modify fun _ => rfl

theorem symbol?_setClass (symbol : Symbol) (id : ScopeId) (name : String) :
    (b.setClass symbol).tree.symbol? id name = b.tree.symbol? id name := symbol?_modify fun _ => rfl

theorem symbol?_setFunction (symbol : Option Symbol) (isStatic : Bool) (id : ScopeId) (name : String) :
    (b.setFunction symbol isStatic).tree.symbol? id name = b.tree.symbol? id name := by
  cases symbol with
  | none => rfl
  | some symbol => exact symbol?_modify fun _ => rfl

/-- The scope that is open after one was to be opened is not the global one. -/
theorem current_enter_ne_root (h : root < b.tree.size) (kind : ScopeKind) (start : Nat) :
    (b.enter kind start).current ≠ root := by
  cases habove : b.tree.get? b.current with
  | none =>
    rw [enter_of_none habove]
    exact Nat.ne_of_gt (Nat.lt_of_lt_of_le h (get?_eq_none_iff.1 habove))
  | some above =>
    rw [(get?_enter kind start habove).1]
    exact Nat.ne_of_gt h

/-- The members of a class are declared in the scope that is open. -/
theorem symbol?_declareMembers (symbol : Symbol) (h : id ≠ b.current) :
    (b.declareMembers symbol).tree.symbol? id name = b.tree.symbol? id name := by
  rw [declareMembers]
  split
  · rename_i info _
    generalize info.members = members
    induction members generalizing b with
    | nil => rfl
    | cons m rest ih =>
      have hcurrent := (Relabels.declare b b.current m.name (.ofMember m.kind) (some m.type)).current
      rw [List.foldl_cons, ih (by rwa [hcurrent]), declare]
      split
      · rfl
      · rw [symbol?_define, if_neg fun hall => h hall.1.symm]
  · rfl

theorem keyed_declareMembers (h : b.tree.Keyed) (symbol : Symbol) : (b.declareMembers symbol).tree.Keyed :=
  have hruns : Runs 0 b (b.declareMembers symbol) := .declareMembers b symbol
  hruns.invariant (fun hs hb => hs.keyed hb) h

/-! ### Whether assignments are tracked -/

theorem tracksAssignments_enter (kind : ScopeKind) (start : Nat) :
    (b.enter kind start).tracksAssignments = b.tracksAssignments := by
  rw [enter]
  split <;> rfl

theorem tracksAssignments_declare (kind : SymbolKind) (type : Option Ty) :
    (b.declare id name kind type).tracksAssignments = b.tracksAssignments := by
  rw [declare]
  split <;> rfl

theorem tracksAssignments_declareMembers (symbol : Symbol) :
    (b.declareMembers symbol).tracksAssignments = b.tracksAssignments := by
  rw [declareMembers]
  split
  · rename_i info _
    generalize info.members = members
    induction members generalizing b with
    | nil => rfl
    | cons m rest ih => exact ih.trans (tracksAssignments_declare (.ofMember m.kind) (some m.type))
  · rfl

/-- An assignment that is tracked tells the type of a name that is resolved, and of which nothing was known. -/
theorem trackAssignment_cases (b : Binder) (n : Node) : b.trackAssignment n = b ∨ ∃ name owner symbol type,
    b.tree.resolveWithScope? b.current name = some (owner, symbol) ∧ symbol.typeOrUnknown.isUnknown = true ∧
      b.trackAssignment n = { b with tree := b.tree.retype owner symbol.name (some type) } := by
  rw [trackAssignment]
  split
  · split
    · rename_i owner symbol hresolved
      obtain ⟨name, -, hname⟩ := Option.bind_eq_some_iff.1 hresolved
      split
      · rename_i hunknown
        dsimp only
        split
        · exact .inl rfl
        · exact .inr ⟨name, owner, symbol, _, hname, hunknown, rfl⟩
      · exact .inl rfl
    · exact .inl rfl
  · exact .inl rfl

end Binder
end Typeahead
