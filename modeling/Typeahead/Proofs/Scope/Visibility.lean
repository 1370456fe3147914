/-
# What is visible is what names resolve to

Two walks towards the global scope look for names: one stops at the first scope that binds the name, the
other collects what every scope binds and leaves out what an inner scope has bound already. They tell the
same of each name, as a scope has one symbol under a name at most. A name that is taken out of a scope
resolves from there as it does from the scope around.

Key theorems: `ScopeTree.filter_visible`, `ScopeTree.Hangs.ancestors_eq_cons`, `ScopeTree.Hangs.resolve?_remove`,
`ScopeTree.visible_run`.
-/
import Typeahead.Proofs.Completion.Labels
import Typeahead.Proofs.Scope.Operations

namespace Typeahead

/-! ### One symbol under a name -/

namespace Scope.Keyed

variable {s : Scope}

theorem erase (h : s.Keyed) (name : String) : Scope.Keyed { s with symbols := s.symbols.erase name } where
  nodup := h.nodup.sublist (List.filter_sublist.map _)
  named entry he := h.named entry (List.mem_filter.1 he).1

/-- The symbols of a name are the one under it. -/
theorem filter_values (h : s.Keyed) (name : String) :
    s.symbols.values.filter (·.name == name) = (s.symbols.get? name).toList := by
  obtain ⟨hnodup, hnamed⟩ := h
  generalize s.symbols = entries at hnodup hnamed
  induction entries with
  | nil => rfl
  | cons entry rest ih =>
    obtain ⟨key, symbol⟩ := entry
    obtain ⟨hnot, hnodup⟩ := List.nodup_cons.1 hnodup
    obtain ⟨hname, hnamed⟩ := List.forall_mem_cons.1 hnamed
    have hname : symbol.name = key := hname
    have ih := ih hnodup hnamed
    rw [Entries.values, List.map_cons, List.filter_cons, hname, Entries.get?]
    by_cases heq : key = name
    · subst heq
      -- no other symbol has the name
      have hrest : (Entries.values rest).filter (·.name == key) = [] := by
        rw [ih]
        cases hget : Entries.get? rest key with
        | none => rfl
        | some other => exact absurd (List.mem_map_of_mem (Entries.mem_of_get? hget)) hnot
      rw [if_pos (beq_self_eq_true key), if_pos rfl]
      exact congrArg (symbol :: ·) hrest
    · rw [if_neg (by simpa using heq), if_neg heq]
      exact ih

end Scope.Keyed

namespace ScopeTree

variable {tree : ScopeTree} {id : ScopeId}

/-- Every operation leaves the symbols under their names. -/
theorem Keyed.apply (h : tree.Keyed) (o : Operation) : (o.apply tree).Keyed := by
  cases o with
  | openScope parent kind start =>
    rw [Operation.apply_openScope]
    exact Binder.Step.keyed (b := ⟨tree, parent, false⟩) (.enter kind (Nat.le_refl start)) h
  | define id symbol => exact h.modify fun _ _ hs => hs.insert symbol
  | remove id name => exact h.modify fun _ _ hs => hs.erase name
  | retype id name type => exact h.retype name type
  | close id stop => exact h.modify_same fun _ => rfl
  | setClass id symbol => exact h.modify_same fun _ => rfl
  | setFunction id symbol isStatic => exact h.modify_same fun _ => rfl

theorem filter_toList {α : Type} (p : α → Bool) (o : Option α) : o.toList.filter p = (o.filter p).toList := by
  cases o with
  | none => rfl
  | some a => cases h : p a <;> simp [Option.filter, h]

/-- What a scope binds under a name. -/
theorem Keyed.filter_bindings (h : tree.Keyed) (id : ScopeId) (name : String) :
    (tree.bindings id).filter (·.name == name) = (tree.ownBinding? id name).toList := by
  rw [bindings, ownBinding?, symbol?]
  cases hs : tree.get? id with
  | none => rfl
  | some s =>
    have hcomm : ∀ l : List Symbol, (l.filter (!·.kind.isMember)).filter (·.name == name) =
        (l.filter (·.name == name)).filter (!·.kind.isMember) := by
      intro l
      simp only [List.filter_filter, Bool.and_comm]
    exact (hcomm _).trans ((congrArg _ ((h id s hs).filter_values name)).trans (filter_toList _ _))

/-! ### Two walks to the global scope -/

/-- What the scopes of a list bind, but for what has been seen before. -/
theorem filter_foldl_bindings (h : tree.Keyed) (name : String) : ∀ (scopes : List ScopeId) (seen : List Symbol),
    (scopes.foldl (fun seen scope => seen ++ (tree.bindings scope).filter
      fun symbol => !seen.any (·.name == symbol.name)) seen).filter (·.name == name) =
    if seen.filter (·.name == name) = [] then (scopes.findSome? (tree.ownBinding? · name)).toList
    else seen.filter (·.name == name)
  | [], seen => by
    split
    · assumption
    · rfl
  | scope :: scopes, seen => by
    -- of what the scope binds under the name nothing is added if the name has been seen
    have hadded : ((tree.bindings scope).filter fun symbol => !seen.any (·.name == symbol.name)).filter (·.name == name) =
        if seen.filter (·.name == name) = [] then (tree.ownBinding? scope name).toList else [] := by
      rw [← h.filter_bindings, List.filter_filter]
      split
      · rename_i hnone
        refine List.filter_congr fun symbol _ => ?_
        by_cases heq : symbol.name = name
        · subst heq
          simpa using hnone
        · simp [heq]
      · rename_i hseen
        refine List.filter_eq_nil_iff.2 fun symbol _ => ?_
        by_cases heq : symbol.name = name
        · subst heq
          simpa using hseen
        · simp [heq]
    rw [List.foldl_cons, filter_foldl_bindings h name scopes, List.filter_append, hadded, List.findSome?_cons]
    by_cases hseen : seen.filter (·.name == name) = []
    · rw [if_pos hseen, if_pos hseen, hseen]
      cases tree.ownBinding? scope name <;> simp
    · simp [hseen]

theorem resolve?_eq (tree : ScopeTree) (id : ScopeId) (name : String) :
    tree.resolve? id name = (tree.ancestors id).findSome? (tree.ownBinding? · name) := by
  rw [resolve?, resolveWithScope?, List.map_findSome?]
  congr 1
  funext owner
  cases h : tree.ownBinding? owner name <;> simp [h]

/-- **Of each name that is visible which it resolves to, and nothing else.** -/
theorem filter_visible (h : tree.Keyed) (id : ScopeId) (name : String) :
    (tree.visible id).filter (·.name == name) = (tree.resolve? id name).toList := by
  rw [visible, filter_foldl_bindings h name, resolve?_eq]
  rfl

/-! ### The scope around -/

theorem Hangs.depth_of_parent (h : tree.Hangs) {s : Scope} {p : ScopeId} (hs : tree.get? id = some s)
    (hp : s.parent = some p) : ∃ above, tree.get? p = some above ∧ s.depth = above.depth + 1 := by
  obtain ⟨_, habove, -, hdepth⟩ := h.of_parent (outline?_eq_some.2 ⟨s, hs, rfl⟩) hp
  obtain ⟨above, hget, rfl⟩ := outline?_eq_some.1 habove
  exact ⟨above, hget, hdepth⟩

/-- How many scopes a walk may visit does not matter if it comes to the global one. -/
theorem Hangs.ancestorsWithin_eq (h : tree.Hangs) : ∀ (steps : Nat) {steps' : Nat} {id : ScopeId} {s : Scope},
    tree.get? id = some s → s.depth < steps → s.depth < steps' →
      tree.ancestorsWithin steps id = tree.ancestorsWithin steps' id
  | 0, _, _, _, _, hlt, _ => absurd hlt (Nat.not_lt_zero _)
  | _ + 1, 0, _, _, _, _, hlt => absurd hlt (Nat.not_lt_zero _)
  | steps + 1, steps' + 1, id, s, hs, hlt, hlt' => by
    rw [ancestorsWithin, ancestorsWithin, hs]
    cases hp : s.parent with
    | none => simp only [hp]
    | some p =>
      obtain ⟨above, hget, hdepth⟩ := h.depth_of_parent hs hp
      simp only [hp]
      exact congrArg (id :: ·) (h.ancestorsWithin_eq steps hget (by omega) (by omega))

/-- A scope, and then the scopes around the one it lies in. -/
theorem Hangs.ancestors_eq_cons (h : tree.Hangs) {s : Scope} (hs : tree.get? id = some s) (hdepth : s.depth < walkLimit) :
    tree.ancestors id = id :: (s.parent.map tree.ancestors).getD [] := by
  rw [ancestors]
  generalize hlimit : walkLimit = steps at hdepth
  cases steps with
  | zero => exact absurd hdepth (Nat.not_lt_zero _)
  | succ steps =>
    rw [ancestorsWithin, hs]
    cases hp : s.parent with
    | none => simp only [hp, Option.map_none, Option.getD_none]
    | some p =>
      obtain ⟨above, hget, hbelow⟩ := h.depth_of_parent hs hp
      simp only [hp, Option.map_some, Option.getD_some, ancestors, hlimit]
      exact congrArg (id :: ·) (h.ancestorsWithin_eq steps hget (by omega) (by omega))

/-- A name that a scope does not bind resolves as it does from the scope around. -/
theorem Hangs.resolve?_of_not_bound (h : tree.Hangs) {s : Scope} {name : String} (hs : tree.get? id = some s)
    (hdepth : s.depth < walkLimit) (hnone : tree.ownBinding? id name = none) :
    tree.resolve? id name = s.parent.bind fun p => tree.resolve? p name := by
  rw [resolve?_eq, h.ancestors_eq_cons hs hdepth, List.findSome?_cons, hnone]
  cases s.parent with
  | none => rfl
  | some p => exact (resolve?_eq tree p name).symm

theorem ownBinding?_remove (tree : ScopeTree) (id : ScopeId) (name : String) :
    (tree.remove id name).ownBinding? id name = none := by
  rw [ownBinding?, symbol?, remove, get?_modify, if_pos rfl]
  cases tree.get? id with
  | none => rfl
  | some s => simp [Entries.get?_erase]

/-- What is taken out of a scope does not matter to the scopes that were opened before it. -/
theorem Hangs.findSome?_remove (h : tree.Hangs) (name other : String) : ∀ (steps : Nat) {outer : ScopeId}, outer < id →
    ((tree.remove id name).ancestorsWithin steps outer).findSome? ((tree.remove id name).ownBinding? · other) =
      (tree.ancestorsWithin steps outer).findSome? (tree.ownBinding? · other)
  | 0, _, _ => rfl
  | steps + 1, outer, hlt => by
    have hget : (tree.remove id name).get? outer = tree.get? outer := by
      rw [remove, get?_modify, if_neg (Nat.ne_of_gt hlt)]
    have hown : (tree.remove id name).ownBinding? outer other = tree.ownBinding? outer other := by
      rw [ownBinding?, symbol?, hget, ownBinding?, symbol?]
    rw [ancestorsWithin, ancestorsWithin, hget]
    cases hs : tree.get? outer with
    | none => rfl
    | some s =>
      cases hp : s.parent with
      | none => simp only [hp, List.findSome?_cons, List.findSome?_nil, hown]
      | some p =>
        have hbefore := Nat.lt_trans (h.parent_lt (outline?_eq_some.2 ⟨s, hs, rfl⟩) hp) hlt
        simp only [hp, List.findSome?_cons, hown, h.findSome?_remove name other steps hbefore]

theorem Hangs.resolve?_remove (h : tree.Hangs) {outer : ScopeId} (hlt : outer < id) (name other : String) :
    (tree.remove id name).resolve? outer other = tree.resolve? outer other := by
  rw [resolve?_eq, resolve?_eq]
  exact h.findSome?_remove name other walkLimit hlt

/-- **What is visible is what names resolve to**, in every tree of scopes, whatever the operations it comes
from: from a scope one symbol of a name is visible if the name resolves, and it is that symbol, and none is if
it does not. Once a name is taken out of a scope it resolves from there as from the scope around, which is as
it did from there before, and not at all from the global one, if the scope lies within reach of the walk. -/
theorem visible_run (operations : List Operation) (id : ScopeId) (name : String) :
    let tree := empty.run operations
    let removed := tree.remove id name
    (tree.visible id).filter (·.name == name) = (tree.resolve? id name).toList ∧
      ∀ s, tree.get? id = some s → s.depth < walkLimit →
        (removed.resolve? id name = s.parent.bind fun p => removed.resolve? p name) ∧
          ∀ p ∈ s.parent, removed.resolve? p name = tree.resolve? p name := by
  intro tree removed
  have hkeyed : tree.Keyed := run_invariant (fun o _ h => h.apply o) operations (Binder.keyed_start false)
  have hangs : tree.Hangs := run_invariant (fun o _ h => h.apply o) operations hangs_empty
  refine ⟨filter_visible hkeyed id name, fun s hs hdepth => ⟨?_, fun p hp => ?_⟩⟩
  · have hremoved : removed.get? id = some { s with symbols := s.symbols.erase name } := by
      rw [show removed = tree.remove id name from rfl, remove, get?_modify, if_pos rfl, hs]
      rfl
    have hangs' : removed.Hangs := hangs.apply (.remove id name)
    have hresolved := hangs'.resolve?_of_not_bound hremoved hdepth (ownBinding?_remove tree id name)
    exact hresolved
  · exact hangs.resolve?_remove (hangs.parent_lt (outline?_eq_some.2 ⟨s, hs, rfl⟩) hp) name name

/-- The name of the inner scope is that of a variable, and hides a constant of the global one. -/
theorem visible_run_removed :
    let operations : List Operation := [.define root ⟨"x", .constant, none⟩, .openScope root .block 2,
      .define 1 ⟨"x", .variable, none⟩]
    let tree := empty.run operations
    (∃ s, tree.get? 1 = some s ∧ s.depth < walkLimit) ∧
      (tree.remove 1 "x").resolve? 1 "x" = (tree.remove 1 "x").resolve? root "x" ∧
      (tree.remove 1 "x").resolve? root "x" = tree.resolve? root "x" := by
  intro operations tree
  obtain ⟨s, hs, hdepth, hparent⟩ : ∃ s, tree.get? 1 = some s ∧ s.depth = 1 ∧ s.parent = some root :=
    ⟨_, rfl, rfl, rfl⟩
  have hlimit : s.depth < walkLimit := by
    rw [hdepth]
    decide
  obtain ⟨hremoved, hbefore⟩ := (visible_run operations 1 "x").2 s hs hlimit
  rw [hparent] at hremoved
  exact ⟨⟨s, hs, hlimit⟩, hremoved, hbefore root hparent⟩

end ScopeTree
end Typeahead
