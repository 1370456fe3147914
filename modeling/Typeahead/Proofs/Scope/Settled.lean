/-
# What a scope holds stays

The binder changes what a scope holds only while the scope lies around the open one: names are declared
in the open scope, or in one around it, and so are those found that are told a type. A new scope lies
right under the open one, and one that is left makes way for the one around it. So a scope that once does
not lie around the open one never does again, and keeps its symbols for good.

Key definitions: `Binder.Anchored`, `Binder.Settled`.
Key theorems: `stable_anchored`, `stable_settled`.
-/
import Typeahead.Proofs.Hoisting.Names
import Typeahead.Proofs.Hoisting.Stable
import Typeahead.Proofs.Scope.Nesting

namespace Typeahead

namespace Binder

open ScopeTree

variable {b c : Binder} {first : Nat} {id : ScopeId} {symbols : Entries Symbol}

theorem variableScope_eq_or_around (b : Binder) : b.variableScope = root ∨ b.tree.Around b.current b.variableScope := by
  rw [variableScope]
  cases hfound : (b.tree.ancestors b.current).find? _ with
  | none => exact .inl rfl
  | some id => exact .inr (around_of_mem_ancestorsWithin (List.mem_of_find?_eq_some hfound))

/-! ### Scopes that hang in their tree -/

/-- Each scope lies under one that was opened before it, the open one is there, and there are so many at
least. -/
structure Anchored (first : Nat) (b : Binder) : Prop where
  hangs : b.tree.Hangs
  valid : b.current < b.tree.size
  grown : first ≤ b.tree.size

namespace Anchored

theorem sameOutline (h : b.Anchored first) (hs : b.SameOutline c) : c.Anchored first where
  hangs := h.hangs.sameShape ⟨hs.size, fun {id o} ho => ⟨o.stop, (hs.outline id).trans ho⟩⟩
  valid := by
    rw [hs.current, hs.size]
    exact h.valid
  grown := hs.size ▸ h.grown

theorem enter (h : b.Anchored first) (kind : ScopeKind) (start : Nat) : (b.enter kind start).Anchored (first + 1) := by
  obtain ⟨above, habove⟩ := exists_outline? h.valid
  obtain ⟨hcurrent, hsize, -⟩ := outline?_enter_max kind start habove
  refine ⟨h.hangs.extends (extends_enter kind start habove), ?_, ?_⟩
  · rw [hcurrent, hsize]
    exact Nat.lt_succ_self _
  · rw [hsize]
    exact Nat.succ_le_succ h.grown

theorem leave (h : b.Anchored first) (stop : Nat) : (b.leave stop).Anchored first := by
  obtain ⟨own, hown⟩ := exists_outline? h.valid
  obtain ⟨hcurrent, hsize, hout⟩ := outline?_leave stop hown
  refine ⟨h.hangs.sameShape (.of_closed hown hsize hout), ?_, hsize ▸ h.grown⟩
  rw [hcurrent, hsize]
  cases hp : own.parent with
  | none => exact h.valid
  | some p => exact Nat.lt_trans (h.hangs.parent_lt hown hp) h.valid

theorem declarationScope_le (h : b.Anchored first) (kind : VariableKind) : b.declarationScope kind ≤ b.current := by
  cases kind with
  | varKind =>
    rcases b.variableScope_eq_or_around with heq | ha
    · exact Nat.le_trans (Nat.le_of_eq heq) (Nat.zero_le _)
    · exact h.hangs.le_of_around ha
  | letKind | constKind => exact Nat.le_refl _

theorem mono {last : Nat} (h : b.Anchored last) (hle : first ≤ last) : b.Anchored first :=
  ⟨h.hangs, h.valid, Nat.le_trans hle h.grown⟩

end Anchored

/-! ### A scope that is done with -/

/-- What does not lie around the open scope does not lie around one that is opened in it, nor around another
than before. -/
theorem not_around_enter (kind : ScopeKind) (start : Nat) {above : Scope} (habove : b.tree.get? b.current = some above)
    (hid : id < b.tree.size) (hnot : ¬ b.tree.Around b.current id) {inner : ScopeId}
    (hinner : inner = b.tree.size ∨ ¬ b.tree.Around inner id) : ¬ (b.enter kind start).tree.Around inner id := by
  intro ha
  have ho := outline?_eq_some.2 ⟨above, habove, rfl⟩
  obtain ⟨-, -, hout⟩ := outline?_enter_max kind start ho
  induction ha with
  | self =>
    rcases hinner with rfl | hinner
    · exact Nat.lt_irrefl _ hid
    · exact hinner (.self _)
  | above ho' hp _ ih =>
    refine ih hid hnot (.inr ?_)
    rw [hout] at ho'
    split at ho'
    · cases ho'
      cases hp
      exact hnot
    · rename_i hne
      have hinner := hinner.resolve_left hne
      split at ho'
      · rename_i hcurrent
        subst hcurrent
        cases ho'
        exact fun ha => hinner (.above ho hp ha)
      · exact fun ha => hinner (.above ho' hp ha)

/-- A scope that does not lie around the open one, and the symbols that it holds. -/
structure Settled (id : ScopeId) (symbols : Entries Symbol) (b : Binder) : Prop where
  ne_root : id ≠ root
  apart : ¬ b.tree.Around b.current id
  holds : ∃ s, b.tree.get? id = some s ∧ s.symbols = symbols

namespace Settled

theorem ne_current (h : b.Settled id symbols) : b.current ≠ id := by
  rintro rfl
  exact h.apart (.self _)

theorem lt_size (h : b.Settled id symbols) : id < b.tree.size := by
  obtain ⟨s, hs, -⟩ := h.holds
  exact lt_size_of_outline? (outline?_eq_some.2 ⟨s, hs, rfl⟩)

/-- A change somewhere else. -/
theorem elsewhere (h : b.Settled id symbols) (hs : b.SameOutline c) (hget : c.tree.get? id = b.tree.get? id) :
    c.Settled id symbols where
  ne_root := h.ne_root
  apart ha := by
    rw [hs.current] at ha
    exact h.apart (ha.mono fun other o ho => ⟨o, (hs.outline other).symm.trans ho, rfl⟩)
  holds := by
    rw [hget]
    exact h.holds

/-- A change of what the open scope holds. -/
theorem tunes (h : b.Settled id symbols) (hs : b.SameOutline c) (hc : b.Tunes c) : c.Settled id symbols :=
  h.elsewhere hs (hc.others id h.ne_current.symm)

theorem define (h : b.Settled id symbols) {scope : ScopeId} (hne : scope ≠ id) (symbol : Symbol) :
    Settled id symbols { b with tree := b.tree.define scope symbol } :=
  h.elsewhere (.define b scope symbol) ((get?_modify ..).trans (if_neg hne))

theorem retype (h : b.Settled id symbols) {scope : ScopeId} (hne : scope ≠ id) (name : String) (type : Option Ty) :
    Settled id symbols { b with tree := b.tree.retype scope name type } := by
  refine h.elsewhere (.retype b scope name type) ?_
  dsimp only
  rw [ScopeTree.retype]
  split
  · exact (get?_modify ..).trans (if_neg hne)
  · rfl

theorem variableScope_ne (h : b.Settled id symbols) : b.variableScope ≠ id := by
  rintro rfl
  exact b.variableScope_eq_or_around.elim h.ne_root h.apart

theorem enter (h : b.Settled id symbols) (kind : ScopeKind) (start : Nat) : (b.enter kind start).Settled id symbols := by
  cases habove : b.tree.get? b.current with
  | none =>
    -- there is no scope to open one in
    have hsame : b.enter kind start = b := by rw [Binder.enter, openScope?, habove, Option.map_none]
    rw [hsame]
    exact h
  | some above =>
    obtain ⟨hcurrent, -, hget⟩ := get?_enter kind start habove
    refine ⟨h.ne_root, not_around_enter kind start habove h.lt_size h.apart (.inl hcurrent), ?_⟩
    rw [hget, if_neg (Nat.ne_of_lt h.lt_size), if_neg h.ne_current.symm]
    exact h.holds

theorem leave (h : b.Settled id symbols) (stop : Nat) : (b.leave stop).Settled id symbols := by
  have hclosed : ∀ other, (b.leave stop).tree.outline? other = if b.current = other then
      (b.tree.outline? other).map fun o => { o with stop := max (max stop o.start) (b.tree.lastStop o.children) }
      else b.tree.outline? other := by
    intro other
    rw [Binder.leave, ScopeTree.close, outline?, get?_modify]
    split
    · rw [outline?, Option.map_map, Option.map_map]
      rfl
    · rfl
  refine ⟨h.ne_root, fun ha => ?_, ?_⟩
  · -- the scope that is open now lies around the one that was
    have ha : b.tree.Around (b.leave stop).current id := by
      refine ha.mono fun other o ho => ?_
      rw [hclosed] at ho
      split at ho
      · obtain ⟨old, hold, rfl⟩ := Option.map_eq_some_iff.1 ho
        exact ⟨old, hold, rfl⟩
      · exact ⟨o, ho, rfl⟩
    rw [Binder.leave] at ha
    cases hs : b.tree.get? b.current with
    | none =>
      rw [hs] at ha
      exact h.apart ha
    | some s =>
      rw [hs] at ha
      cases hp : s.parent with
      | none =>
        simp only [Option.bind_some, hp, Option.getD_none] at ha
        exact h.apart ha
      | some p =>
        simp only [Option.bind_some, hp, Option.getD_some] at ha
        exact h.apart (.above (outline?_eq_some.2 ⟨s, hs, rfl⟩) hp ha)
  · rw [Binder.leave, ScopeTree.close, get?_modify, if_neg h.ne_current]
    exact h.holds

end Settled

end Binder

/-! ### Every step keeps them -/

open Binder ScopeTree

/-- Each scope stays in its place in the tree. -/
theorem stable_anchored {first : Nat} : Stable (fun _ => True) (fun _ => True) (Anchored first) where
  current _ := trivial
  owner _ := trivial
  define {b scope _} h _ _ _ _ := h.sameOutline (.define b scope _)
  retype {b scope name} h _ _ type := h.sameOutline (.retype b scope name type)
  track {b} h n := h.sameOutline (.trackAssignment b n)
  name {_ b'} _ h symbol := h.sameOutline (.define b' _ symbol)
  enter h kind _ start := (h.enter kind start).mono (Nat.le_succ first)
  openFunction h start symbol isStatic :=
    ((h.enter .function start).mono (Nat.le_succ first)).sameOutline (.setFunction _ symbol isStatic)
  openClass h _ start symbol :=
    ((h.enter .classBody start).mono (Nat.le_succ first)).sameOutline
      ((SameOutline.declareMembers _ symbol).trans (.setClass _ symbol))
  leave _ _ _ h stop := h.leave stop

/-- **What a scope holds stays** while it does not lie around the open one. -/
theorem stable_settled {id : ScopeId} {symbols : Entries Symbol} : Stable (fun _ => True) (· ≠ id) (Settled id symbols) where
  current h := h.ne_current
  owner h := h.variableScope_ne
  define h hscope _ _ _ := h.define hscope _
  retype h hscope _ type := h.retype hscope _ type
  track {b} h n := by
    obtain heq | ⟨name, owner, symbol, type, hresolved, -, heq⟩ := b.trackAssignment_cases n
    · rw [heq]
      exact h
    · rw [heq]
      refine h.retype ?_ _ _
      rintro rfl
      exact h.apart (around_of_mem_ancestorsWithin (resolveWithScope?_eq_some hresolved).1)
  name h h' symbol := h'.define (Nat.ne_of_gt h.lt_size) symbol
  enter h kind _ start := h.enter kind start
  openFunction h start symbol isStatic :=
    (h.enter .function start).tunes (.setFunction _ symbol isStatic) (.setFunction _ symbol isStatic)
  openClass h _ start symbol :=
    (h.enter .classBody start).tunes ((SameOutline.declareMembers _ symbol).trans (.setClass _ symbol))
      ((Tunes.declareMembers _ symbol).trans (.setClass _ symbol))
  leave _ _ _ h stop := h.leave stop

end Typeahead
