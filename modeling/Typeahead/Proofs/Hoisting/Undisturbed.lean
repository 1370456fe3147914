/-
# What a walk leaves alone

Three properties that every step of the binder keeps. The scopes stay in order: each lies in another
and holds its symbols under their names. A walk that starts in the global scope, over a tree without
classes, leaves every other scope as it is and adds no class body. And a name of the global scope of
which something is known keeps its symbol where the tree does not declare it.

Key definitions: `Binder.Orderly`, `Binder.Inward`, `Binder.Known`.
Key theorems: `stable_orderly`, `stable_inward`, `stable_known`.
-/
import Typeahead.Proofs.Hoisting.Names
import Typeahead.Proofs.Hoisting.Stable

namespace Typeahead

namespace Binder

open ScopeTree

variable {b c : Binder}

/-! ### Scopes in order -/

/-- Every scope lies in another, but for the global one, and holds its symbols under their names. -/
structure Orderly (b : Binder) : Prop where
  valid : b.current < b.tree.size
  parents : ∀ id s, b.tree.frame? id = some s → ∀ p ∈ s.parent, p < b.tree.size
  root : ∃ s, b.tree.frame? root = some s ∧ s.parent = none ∧ s.start = 0
  keyed : b.tree.Keyed

namespace Orderly

theorem start (tracksAssignments : Bool) : (Binder.start tracksAssignments).Orderly where
  valid := Nat.zero_lt_one
  parents id s hs := by
    obtain rfl : id = ScopeTree.root := Nat.lt_one_iff.1 (lt_size_of_frame? hs)
    obtain rfl : (Scope.opened .global none 0 0).frame = s := Option.some.inj hs
    exact fun p hp => by cases hp
  root := ⟨_, rfl, rfl, rfl⟩
  keyed := keyed_start tracksAssignments

theorem relabels (h : b.Orderly) (hc : b.Relabels c) (hkeyed : c.tree.Keyed) : c.Orderly where
  valid := by
    rw [hc.current, hc.size]
    exact h.valid
  parents id s hs := by
    rw [hc.frame] at hs
    rw [hc.size]
    exact h.parents id s hs
  root := by
    rw [hc.frame]
    exact h.root
  keyed := hkeyed

theorem furnishes (h : b.Orderly) (hc : b.Furnishes c) (hkeyed : c.tree.Keyed) : c.Orderly := by
  obtain ⟨own, hown⟩ := exists_frame?_of_lt h.valid
  obtain ⟨own', hown', -, houtline⟩ := hc.own own hown
  -- each scope has the parent and the start that it had
  have hsame : ∀ id s, b.tree.frame? id = some s → ∃ s', c.tree.frame? id = some s' ∧ s'.parent = s.parent ∧
    s'.start = s.start := by
    intro id s hs
    by_cases hid : id = b.current
    · subst hid
      cases hown.symm.trans hs
      exact ⟨own', hown', congrArg Outline.parent houtline, congrArg Outline.start houtline⟩
    · exact ⟨s, (hc.others id hid).trans hs, rfl, rfl⟩
  refine ⟨?_, fun id s' hs' => ?_, ?_, hkeyed⟩
  · rw [hc.current, hc.size]
    exact h.valid
  · have hlt := lt_size_of_frame? hs'
    rw [hc.size] at hlt ⊢
    obtain ⟨s, hs⟩ := exists_frame?_of_lt hlt
    obtain ⟨t, ht, hparent, -⟩ := hsame id s hs
    cases hs'.symm.trans ht
    rw [hparent]
    exact h.parents id s hs
  · obtain ⟨s, hs, hparent, hstart⟩ := h.root
    obtain ⟨s', hs', hparent', hstart'⟩ := hsame _ s hs
    exact ⟨s', hs', hparent'.trans hparent, hstart'.trans hstart⟩

theorem enter (h : b.Orderly) (kind : ScopeKind) (start : Nat) : (b.enter kind start).Orderly := by
  obtain ⟨above, habove⟩ := exists_frame?_of_lt h.valid
  obtain ⟨hcurrent, hsize, hframe⟩ := frame?_enter_max kind start habove
  have hroot : ScopeTree.root < b.tree.size := Nat.zero_lt_of_lt h.valid
  refine ⟨?_, fun id s hs p hp => ?_, ?_, Step.keyed (.enter kind (Nat.le_refl start)) h.keyed⟩
  · rw [hcurrent, hsize]
    exact Nat.lt_succ_self _
  · rw [hframe] at hs
    rw [hsize]
    split at hs
    · cases hs
      cases hp
      exact Nat.lt_succ_of_lt h.valid
    · split at hs
      · cases hs
        exact Nat.lt_succ_of_lt (h.parents _ above habove p hp)
      · exact Nat.lt_succ_of_lt (h.parents id s hs p hp)
  · obtain ⟨s, hs, hparent, hstart⟩ := h.root
    rw [hframe, if_neg (Nat.ne_of_lt hroot)]
    split
    · rename_i heq
      rw [← heq] at habove
      cases hs.symm.trans habove
      exact ⟨_, rfl, hparent, hstart⟩
    · exact ⟨s, hs, hparent, hstart⟩

theorem leave (h : b.Orderly) (stop : Nat) : (b.leave stop).Orderly := by
  obtain ⟨own, hown⟩ := exists_frame?_of_lt h.valid
  obtain ⟨hcurrent, hsize, hframe⟩ := frame?_leave stop hown
  refine ⟨?_, fun id s hs => ?_, ?_, Step.keyed (.leave (Nat.le_refl stop)) h.keyed⟩
  · rw [hcurrent, hsize]
    cases hparent : own.parent with
    | none => exact h.valid
    | some p => exact h.parents _ own hown p hparent
  · rw [hframe] at hs
    rw [hsize]
    split at hs
    · cases hs
      exact h.parents _ own hown
    · exact h.parents id s hs
  · obtain ⟨s, hs, hparent, hstart⟩ := h.root
    rw [hframe]
    split
    · rename_i heq
      rw [← heq] at hown
      cases hs.symm.trans hown
      exact ⟨_, rfl, hparent, hstart⟩
    · exact ⟨s, hs, hparent, hstart⟩

end Orderly

/-! ### Scopes that are added to the global one -/

/-- The global scope, and the scopes from the first one on. -/
def Inside (first : ScopeId) (id : ScopeId) : Prop := id = root ∨ first ≤ id

/-- Behind the scopes of a tree others are added to the global one, none of which is a class body. But
for the global one the scopes that were there are as they were. -/
structure Inward (first : ScopeId) (outer : ScopeTree) (b : Binder) : Prop where
  behind_root : root < first
  grown : first ≤ b.tree.size
  valid : b.current < b.tree.size
  inside : Inside first b.current
  frames : ∀ id < first, id ≠ root → b.tree.frame? id = outer.frame? id
  symbols : ∀ id < first, id ≠ root → ∀ name, b.tree.symbol? id name = outer.symbol? id name
  root : ∃ s children, outer.frame? root = some s ∧ s.parent = none ∧ b.tree.frame? root = some { s with children }
  added : ∀ id s, first ≤ id → b.tree.frame? id = some s → s.kind ≠ .classBody ∧ ∃ p, s.parent = some p ∧
    Inside first p

namespace Inward

variable {first : ScopeId} {outer : ScopeTree}

/-- Nothing has been added. -/
theorem start (hb : b.Orderly) (hcurrent : b.current = ScopeTree.root) : b.Inward b.tree.size b.tree where
  behind_root := Nat.zero_lt_of_lt hb.valid
  grown := Nat.le_refl _
  valid := hb.valid
  inside := .inl hcurrent
  frames _ _ _ := rfl
  symbols _ _ _ _ := rfl
  root := by
    obtain ⟨s, hs, hparent, -⟩ := hb.root
    exact ⟨s, s.children, hs, hparent, hs⟩
  added id s hid hs := absurd (lt_size_of_frame? hs) (Nat.not_lt.2 hid)

theorem ne_root (h : b.Inward first outer) {id : ScopeId} (hid : first ≤ id) : id ≠ ScopeTree.root :=
  Nat.ne_of_gt (Nat.lt_of_lt_of_le h.behind_root hid)

theorem inside_of_parent (h : b.Inward first outer) {id p : ScopeId} {s : Scope} (hid : Inside first id)
    (hs : b.tree.get? id = some s) (hp : s.parent = some p) : Inside first p := by
  rcases hid with rfl | hid
  · obtain ⟨r, children, -, hparent, hr⟩ := h.root
    have hframe : s.frame = { r with children } := Option.some.inj ((frame?_of_get? hs).symm.trans hr)
    have hsame := congrArg Scope.parent hframe
    cases hp.symm.trans (hsame.trans hparent)
  · obtain ⟨-, q, hq, hin⟩ := h.added id s.frame hid (frame?_of_get? hs)
    cases hp.symm.trans hq
    exact hin

/-- The scopes around one that is inside are. -/
theorem inside_of_mem_ancestors (h : b.Inward first outer) {id : ScopeId} (hid : Inside first id) :
    ∀ a ∈ b.tree.ancestors id, Inside first a := by
  have hwithin : ∀ (steps : Nat) {id : ScopeId}, Inside first id → ∀ a ∈ b.tree.ancestorsWithin steps id,
    Inside first a := by
    intro steps
    induction steps with
    | zero => exact fun _ a ha => by cases ha
    | succ steps ih =>
      intro id hid a ha
      rw [ancestorsWithin] at ha
      split at ha
      · cases ha
      · rename_i s hs
        split at ha
        · exact List.mem_singleton.1 ha ▸ hid
        · rename_i p hp
          rcases List.mem_cons.1 ha with rfl | ha
          · exact hid
          · exact ih (h.inside_of_parent hid hs hp) a ha
  exact hwithin walkLimit hid

theorem inside_variableScope (h : b.Inward first outer) : Inside first b.variableScope := by
  rw [variableScope]
  cases hfound : (b.tree.ancestors b.current).find? _ with
  | none => exact .inl rfl
  | some id => exact h.inside_of_mem_ancestors h.inside id (List.mem_of_find?_eq_some hfound)

/-- Names are declared in scopes that are inside, or given a type. -/
theorem relabels (h : b.Inward first outer) (hc : b.Relabels c)
    (hsymbols : ∀ id < first, id ≠ ScopeTree.root → ∀ name, c.tree.symbol? id name = b.tree.symbol? id name) :
    c.Inward first outer where
  behind_root := h.behind_root
  grown := hc.size ▸ h.grown
  valid := by
    rw [hc.current, hc.size]
    exact h.valid
  inside := hc.current ▸ h.inside
  frames id hid hne := (hc.frame id).trans (h.frames id hid hne)
  symbols id hid hne name := (hsymbols id hid hne name).trans (h.symbols id hid hne name)
  root := by
    rw [hc.frame]
    exact h.root
  added id s hid hs := h.added id s hid ((hc.frame id).symm.trans hs)

theorem ne_of_inside {id scope : ScopeId} (hscope : Inside first scope) (hid : id < first)
    (hne : id ≠ ScopeTree.root) : scope ≠ id := by
  rintro rfl
  exact hscope.elim hne (Nat.not_le.2 hid)

theorem define (h : b.Inward first outer) {scope : ScopeId} (hscope : Inside first scope) (symbol : Symbol) :
    Inward first outer { b with tree := b.tree.define scope symbol } :=
  h.relabels (.define b scope symbol) fun id hid hne name => by
    rw [symbol?_define, if_neg fun hall => ne_of_inside hscope hid hne hall.1]

theorem retype (h : b.Inward first outer) {scope : ScopeId} (hscope : Inside first scope) (name : String)
    (type : Option Ty) :
    Inward first outer { b with tree := b.tree.retype scope name type } :=
  h.relabels (.retype b scope name type) fun id hid hne own => by
    rw [symbol?_retype, if_neg fun hall => ne_of_inside hscope hid hne hall.1]

theorem first_le_enter (h : b.Inward first outer) (kind : ScopeKind) (start : Nat) :
    first ≤ (b.enter kind start).current := by
  obtain ⟨above, habove⟩ := exists_frame?_of_lt h.valid
  rw [(frame?_enter_max kind start habove).1]
  exact h.grown

theorem enter (h : b.Inward first outer) {kind : ScopeKind} (hkind : kind ≠ .classBody) (start : Nat) :
    (b.enter kind start).Inward first outer := by
  obtain ⟨above, habove⟩ := exists_frame?_of_lt h.valid
  obtain ⟨hcurrent, hsize, hframe⟩ := frame?_enter_max kind start habove
  have hroot : ScopeTree.root ≠ b.tree.size := (h.ne_root h.grown).symm
  exact {
    behind_root := h.behind_root
    grown := hsize ▸ Nat.le_succ_of_le h.grown
    valid := by
      rw [hcurrent, hsize]
      exact Nat.lt_succ_self _
    inside := .inr (h.first_le_enter kind start)
    frames := fun id hid hne => by
      rw [hframe, if_neg (Nat.ne_of_lt (Nat.lt_of_lt_of_le hid h.grown)), if_neg (ne_of_inside h.inside hid hne).symm,
        h.frames id hid hne]
    symbols := fun id hid hne name => (symbol?_enter kind start id name).trans (h.symbols id hid hne name)
    root := by
      obtain ⟨s, children, hs, hparent, hs'⟩ := h.root
      rw [hframe, if_neg hroot]
      split
      · rename_i heq
        rw [← heq] at habove
        cases hs'.symm.trans habove
        exact ⟨s, _, hs, hparent, rfl⟩
      · exact ⟨s, children, hs, hparent, hs'⟩
    added := fun id s hid hs => by
      rw [hframe] at hs
      split at hs
      · cases hs
        exact ⟨hkind, b.current, rfl, h.inside⟩
      · split at hs
        · rename_i heq
          cases hs
          exact h.added _ above (heq ▸ hid) habove
        · exact h.added id s hid hs }

/-- What a scope that is inside belongs to is changed. -/
theorem furnishes (h : b.Inward first outer) (hc : b.Furnishes c) (hin : first ≤ b.current)
    (hsymbols : ∀ id name, c.tree.symbol? id name = b.tree.symbol? id name) : c.Inward first outer where
  behind_root := h.behind_root
  grown := hc.size ▸ h.grown
  valid := by
    rw [hc.current, hc.size]
    exact h.valid
  inside := hc.current ▸ h.inside
  frames id hid hne := (hc.others id (Nat.ne_of_lt (Nat.lt_of_lt_of_le hid hin))).trans (h.frames id hid hne)
  symbols id hid hne name := (hsymbols id name).trans (h.symbols id hid hne name)
  root := by
    rw [hc.others _ (h.ne_root hin).symm]
    exact h.root
  added id s' hid hs' := by
    by_cases hcurrent : id = b.current
    · subst hcurrent
      obtain ⟨s, hs⟩ := exists_frame?_of_lt h.valid
      obtain ⟨t, ht, hkind, houtline⟩ := hc.own s hs
      cases hs'.symm.trans ht
      rw [hkind, show s'.parent = s.parent from congrArg Outline.parent houtline]
      exact h.added _ s hid hs
    · exact h.added id s' hid ((hc.others id hcurrent).symm.trans hs')

theorem leave (h : b.Inward first outer) (hin : first ≤ b.current) (stop : Nat)
    (hvalid : (b.leave stop).current < b.tree.size) :
    (b.leave stop).Inward first outer := by
  obtain ⟨own, hown⟩ := exists_frame?_of_lt h.valid
  obtain ⟨hcurrent, hsize, hframe⟩ := frame?_leave stop hown
  obtain ⟨-, p, hp, hinside⟩ := h.added _ own hin hown
  exact {
    behind_root := h.behind_root
    grown := hsize ▸ h.grown
    valid := hsize ▸ hvalid
    inside := by
      rw [hcurrent, hp]
      exact hinside
    frames := fun id hid hne => by
      rw [hframe, if_neg (Nat.ne_of_lt (Nat.lt_of_lt_of_le hid hin)), h.frames id hid hne]
    symbols := fun id hid hne name => (symbol?_leave stop id name).trans (h.symbols id hid hne name)
    root := by
      rw [hframe, if_neg (h.ne_root hin).symm]
      exact h.root
    added := fun id s hid hs => by
      rw [hframe] at hs
      split at hs
      · cases hs
        exact h.added _ own hin hown
      · exact h.added id s hid hs }

end Inward

/-! ### A name that is known -/

/-- A symbol of the global scope. -/
structure Known (symbol : Symbol) (b : Binder) : Prop where
  keyed : b.tree.Keyed
  symbol : b.tree.symbol? root symbol.name = some symbol

/-- A step that leaves the symbols as they are. -/
theorem Known.step {symbol : Symbol} {last : Nat} (h : b.Known symbol) (hs : Step last b c)
    (hsame : ∀ id name, c.tree.symbol? id name = b.tree.symbol? id name) : c.Known symbol :=
  ⟨hs.keyed h.keyed, (hsame _ _).trans h.symbol⟩

theorem Known.enter {symbol : Symbol} (h : b.Known symbol) (kind : ScopeKind) (start : Nat) :
    (b.enter kind start).Known symbol :=
  h.step (.enter kind (Nat.le_refl start)) (symbol?_enter kind start)

theorem Known.root_lt_size {symbol : Symbol} (h : b.Known symbol) : root < b.tree.size := by
  have hsymbol := h.symbol
  rw [symbol?] at hsymbol
  cases hs : b.tree.get? root with
  | none => simp [hs] at hsymbol
  | some s => exact (Array.getElem?_eq_some_iff.1 hs).1

end Binder

/-! ### Every step keeps them -/

open Binder ScopeTree

/-- Whether assignments tell types does not change. -/
theorem stable_tracks (tracks : Bool) : Stable (fun _ => True) (fun _ => True) (·.tracksAssignments = tracks) where
  current _ := trivial
  owner _ := trivial
  define h _ _ _ _ := h
  retype h _ _ _ := h
  track {b} h n := by
    obtain heq | ⟨name, owner, symbol, type, -, -, heq⟩ := b.trackAssignment_cases n
    · rw [heq, h]
    · rw [heq]
      exact h
  name _ h _ := h
  enter h kind _ start := (tracksAssignments_enter kind start).trans h
  openFunction h start symbol isStatic := by
    cases symbol with
    | none => exact (tracksAssignments_enter .function start).trans h
    | some symbol => exact (tracksAssignments_enter .function start).trans h
  openClass h _ start symbol :=
    (tracksAssignments_declareMembers symbol).trans ((tracksAssignments_enter .classBody start).trans h)
  leave _ _ _ h _ := h

/-- **The scopes stay in order.** -/
theorem stable_orderly : Stable (fun _ => True) (fun _ => True) Orderly where
  current _ := trivial
  owner _ := trivial
  define h _ _ kind type := h.relabels (.define _ _ _) (h.keyed.define _ _)
  retype h _ _ type := h.relabels (.retype _ _ _ _) (h.keyed.retype _ _)
  track {b} h n := by
    refine h.relabels (.trackAssignment b n) ?_
    obtain heq | ⟨name, owner, symbol, type, -, -, heq⟩ := b.trackAssignment_cases n
    · rw [heq]
      exact h.keyed
    · rw [heq]
      exact h.keyed.retype _ _
  name _ h symbol := h.relabels (.define _ _ _) (h.keyed.define _ _)
  enter h kind _ start := h.enter kind start
  openFunction h start symbol isStatic :=
    have hentered := h.enter .function start
    hentered.furnishes (.setFunction _ symbol isStatic)
      (Step.keyed (.setFunction symbol isStatic : Step 0 _ _) hentered.keyed)
  openClass h _ start symbol :=
    have hkeyed := keyed_declareMembers (h.enter .classBody start).keyed symbol
    ((h.enter .classBody start).relabels (.declareMembers _ symbol) hkeyed).furnishes (.setClass _ symbol)
      (Step.keyed (.setClass symbol : Step 0 _ _) hkeyed)
  leave _ _ _ h stop := h.leave stop

/-- **Scopes are added to the global one.** -/
theorem stable_inward {first : ScopeId} {outer : ScopeTree} :
    Stable (·.classBody? = none) (Inside first) (Inward first outer) where
  current h := h.inside
  owner h := h.inside_variableScope
  define h hscope _ kind type := h.define hscope _
  retype h hscope _ type := h.retype hscope _ type
  track {b} h n := by
    obtain heq | ⟨name, owner, symbol, type, hresolved, -, heq⟩ := b.trackAssignment_cases n
    · rw [heq]
      exact h
    · rw [heq]
      exact h.retype (h.inside_of_mem_ancestors h.inside owner (resolveWithScope?_eq_some hresolved).1) _ _
  name h h' symbol := h'.define (.inr h.grown) symbol
  enter h kind hkind start := h.enter hkind start
  openFunction h start symbol isStatic :=
    (h.enter (by decide) start).furnishes (.setFunction _ symbol isStatic) (h.first_le_enter _ start)
      (symbol?_setFunction symbol isStatic)
  openClass _ hclass := by
    obtain ⟨kind, hkind, hsome⟩ := hclass
    rw [hkind] at hsome
    cases hsome
  leave {b c e kind start} h hc hkeeps he stop := by
    obtain ⟨above, habove⟩ := exists_current h.valid
    obtain ⟨hcurrent, hsize, -⟩ := hc.opened habove
    have hretains := hkeeps (by rw [hcurrent, hsize]; exact Nat.lt_succ_self _)
    obtain ⟨hback, -⟩ := left_of_keeps stop hc hkeeps habove
    refine he.leave ?_ stop ?_
    · rw [hretains.current, hcurrent]
      exact h.grown
    · rw [hback.current]
      exact Nat.lt_of_lt_of_le h.valid (Nat.le_trans hback.size (Nat.le_of_eq (size_modify _)))

/-- **A name of which something is known keeps its symbol**, if it is not declared. -/
theorem stable_known {symbol : Symbol} (hknown : symbol.typeOrUnknown.isUnknown = false) :
    Stable (symbol.name ∉ ·.declares) (fun _ => True) (Known symbol) where
  current _ := trivial
  owner _ := trivial
  define {b scope name} h _ hname kind type := by
    obtain ⟨own, hown, hdeclares⟩ := hname
    refine ⟨h.keyed.define _ _, ?_⟩
    rw [symbol?_define, if_neg, h.symbol]
    rintro ⟨-, -, rfl⟩
    exact hown hdeclares
  retype {b scope name} h _ hname type := by
    obtain ⟨own, hown, hdeclares⟩ := hname
    refine ⟨h.keyed.retype _ _, ?_⟩
    rw [symbol?_retype, if_neg, h.symbol]
    rintro ⟨-, rfl⟩
    exact hown hdeclares
  track {b} h n := by
    obtain heq | ⟨name, owner, found, type, hresolved, hunknown, heq⟩ := b.trackAssignment_cases n
    · rw [heq]
      exact h
    · obtain ⟨-, hfound⟩ := resolveWithScope?_eq_some hresolved
      have hname := h.keyed.name_eq hfound
      refine heq ▸ ⟨h.keyed.retype _ _, ?_⟩
      rw [symbol?_retype, if_neg, h.symbol]
      rintro ⟨rfl, hsame⟩
      -- something is known of the symbol, and so it is not the one that is told a type
      rw [← hname, hsame, h.symbol] at hfound
      cases hfound
      cases hknown.symm.trans hunknown
  name h h' own := by
    refine ⟨h'.keyed.define _ _, ?_⟩
    rw [symbol?_define, if_neg fun hall => Nat.ne_of_gt h.root_lt_size hall.1, h'.symbol]
  enter h kind _ start := h.enter kind start
  openFunction h start own isStatic :=
    (h.enter .function start).step (.setFunction own isStatic : Step 0 _ _) (symbol?_setFunction own isStatic)
  openClass h _ start own := by
    have hentered := h.enter .classBody start
    refine Known.step ⟨keyed_declareMembers hentered.keyed own, ?_⟩ (.setClass own : Step 0 _ _)
      (symbol?_setClass own)
    rw [symbol?_declareMembers own (current_enter_ne_root h.root_lt_size _ _).symm, hentered.symbol]
  leave _ _ _ h stop := h.step (.leave (Nat.le_refl stop)) (symbol?_leave stop)

end Typeahead
