/-
# The deepest scope at an offset

Where each scope covers those in it and no two under the same scope have an offset in common,
going down from the global scope comes to a scope that lies in every other at the offset. The
scopes of a document are so whenever nothing that is switched on opens a scope: a switch opens
its own scope where the whole statement starts, and a scope of what it is on would share
offsets with it.

Key definitions: `ScopeTree.Nested`, `ScopeTree.Below`.
Key theorems: `ScopeTree.scopeAtWithin_deepest`, `nested_bindText`, `scopeAt_deepest`.
-/
import Typeahead.Proofs.Layout.Script
import Typeahead.Proofs.Scope.Bound

namespace Typeahead

open Text

namespace ScopeTree

variable {limit offset : Nat} {tree : ScopeTree} {id c x y : ScopeId} {o : Outline}

/-- The scopes are linked, and each covers those in it. -/
structure Nested (limit : Nat) (tree : ScopeTree) : Prop extends Linked limit tree where
  covers : ∀ {id o}, tree.outline? id = some o → ∀ c ∈ o.children, ∀ oc, tree.outline? c = some oc → oc.stop ≤ o.stop

/-- A scope is another or lies in it. -/
inductive Below (tree : ScopeTree) (id : ScopeId) : ScopeId → Prop where
  | self : Below tree id id
  | child {p c : ScopeId} {o : Outline} : Below tree id p → tree.outline? p = some o → c ∈ o.children → Below tree id c

/-- The offset lies in the scope. -/
def Holds (tree : ScopeTree) (offset : Nat) (id : ScopeId) : Prop :=
  ∃ o, tree.outline? id = some o ∧ o.start ≤ offset ∧ offset < o.stop

theorem holds_iff : tree.Holds offset id ↔ ∃ s, tree.get? id = some s ∧ s.contains offset = true := by
  simp only [Holds, outline?_eq_some, Scope.contains, Bool.and_eq_true, decide_eq_true_eq]
  constructor
  · rintro ⟨_, ⟨s, hs, rfl⟩, h⟩
    exact ⟨s, hs, h⟩
  · rintro ⟨s, hs, h⟩
    exact ⟨_, ⟨s, hs, rfl⟩, h⟩

/-- A child that is found to be around an offset is. -/
theorem inside_iff : ((tree.get? id).map (·.contains offset)).getD false = true ↔ tree.Holds offset id := by
  rw [holds_iff]
  cases tree.get? id with
  | none => simp
  | some s => simp

theorem Below.trans (h : Below tree x y) (h' : Below tree y id) : Below tree x id := by
  induction h' with
  | self => exact h
  | child _ ho hc ih => exact .child ih ho hc

/-- A scope that lies in another lies in one of its children. -/
theorem Below.exists_child (h : Below tree id x) :
    x = id ∨ ∃ o, tree.outline? id = some o ∧ ∃ c ∈ o.children, Below tree c x := by
  induction h with
  | self => exact .inl rfl
  | @child p c o _ ho hc ih =>
    rcases ih with rfl | ⟨o', ho', c', hc', h'⟩
    · exact .inr ⟨o, ho, c, hc, .self⟩
    · exact .inr ⟨o', ho', c', hc', .child h' ho hc⟩

/-- Every scope lies in the global one. -/
theorem Linked.below_root (h : Linked limit tree) : ∀ id o, tree.outline? id = some o → Below tree root id := by
  intro id
  induction id using Nat.strongRecOn with
  | _ id ih =>
    intro o ho
    by_cases hroot : id = root
    · rw [hroot]
      exact .self
    · obtain ⟨p, op, -, hlt, hop, hmem, -⟩ := h.parent ho hroot
      exact .child (ih p hlt op hop) hop hmem

/-- A scope around another is one of its ancestors. -/
theorem Linked.mem_ancestorsWithin (h : Linked limit tree) (hb : Below tree id x) :
    ∀ {steps o}, tree.outline? x = some o → o.depth < steps → id ∈ tree.ancestorsWithin steps x := by
  induction hb with
  | self =>
    intro steps o ho hsteps
    obtain ⟨s, hs, rfl⟩ := outline?_eq_some.1 ho
    obtain ⟨k, rfl⟩ : ∃ k, steps = k + 1 := ⟨steps - 1, by omega⟩
    rw [ancestorsWithin, hs]
    dsimp only
    split <;> exact List.mem_cons_self
  | @child p c op _ hop hc ih =>
    intro steps o ho hsteps
    obtain ⟨k, rfl⟩ : ∃ k, steps = k + 1 := ⟨steps - 1, by omega⟩
    obtain ⟨oc, hoc, hparent, hne⟩ := h.children hop hc
    cases hoc.symm.trans ho
    obtain ⟨p', op', hp', -, hop', -, -, hdepth⟩ := h.parent ho hne
    cases hparent.symm.trans hp'
    cases hop.symm.trans hop'
    obtain ⟨s, hs, rfl⟩ := outline?_eq_some.1 ho
    have hsp : s.parent = some p := hparent
    rw [ancestorsWithin, hs]
    simp only [hsp]
    exact List.mem_cons_of_mem _ (ih hop (by omega))

namespace Nested

variable (h : Nested limit tree)
include h

theorem holds_parent (ho : tree.outline? id = some o) (hc : c ∈ o.children) (hx : tree.Holds offset c) :
    tree.Holds offset id := by
  obtain ⟨oc, hoc, hstart, hstop⟩ := hx
  obtain ⟨oc', hoc', hparent, hne⟩ := h.children ho hc
  cases hoc'.symm.trans hoc
  obtain ⟨p, op, hp, -, hop, -, hle, -⟩ := h.parent hoc hne
  cases hparent.symm.trans hp
  cases hop.symm.trans ho
  have := h.covers ho c hc oc hoc
  exact ⟨o, ho, by omega, by omega⟩

/-- An offset in a scope lies in those around it. -/
theorem holds_of_below (hb : Below tree id x) (hx : tree.Holds offset x) : tree.Holds offset id := by
  induction hb with
  | self => exact hx
  | child _ ho hc ih => exact ih (h.holds_parent ho hc hx)

/-- No offset lies in two children of a scope. -/
theorem eq_of_holds (ho : tree.outline? id = some o) (hx : x ∈ o.children) (hy : y ∈ o.children)
    (hxo : tree.Holds offset x) (hyo : tree.Holds offset y) : x = y := by
  by_contra hne
  obtain ⟨ox, hox, hxstart, hxstop⟩ := hxo
  obtain ⟨oy, hoy, hystart, hystop⟩ := hyo
  have := h.apart ho x hx y hy hne ox oy hox hoy
  rw [Outline.Apart] at this
  omega

/-- **Going down from a scope at the offset comes to one that lies in every other there.** -/
theorem scopeAtWithin_deepest : ∀ steps {id o}, tree.outline? id = some o → tree.Holds offset id →
    limit < o.depth + steps → tree.Holds offset (tree.scopeAtWithin offset steps id) ∧
      Below tree id (tree.scopeAtWithin offset steps id) ∧
      ∀ x, Below tree id x → tree.Holds offset x → Below tree x (tree.scopeAtWithin offset steps id)
  | 0, id, o, ho, _, hsteps => absurd (h.shallow ho) (by omega)
  | steps + 1, id, o, ho, hid, hsteps => by
    obtain ⟨s, hs, rfl⟩ := outline?_eq_some.1 ho
    rw [scopeAtWithin, hs, Option.bind_some]
    split
    · rename_i c hfind
      have hc : c ∈ s.outline.children := List.mem_reverse.1 (List.mem_of_find?_eq_some hfind)
      have hfound := List.find?_some hfind
      have hholds := inside_iff.1 hfound
      obtain ⟨oc, hoc, hparent, hne⟩ := h.children ho hc
      obtain ⟨p, op, hp, -, hop, -, -, hdepth⟩ := h.parent hoc hne
      cases hparent.symm.trans hp
      cases ho.symm.trans hop
      obtain ⟨hr, hbelow, hall⟩ := scopeAtWithin_deepest steps hoc hholds (by omega)
      have hown : Below tree id (tree.scopeAtWithin offset steps c) := (Below.child .self ho hc).trans hbelow
      refine ⟨hr, hown, fun x hx hxo => ?_⟩
      rcases hx.exists_child with rfl | ⟨o', ho', c', hc', hx'⟩
      · exact hown
      · cases ho.symm.trans ho'
        obtain rfl := h.eq_of_holds ho hc hc' hholds (h.holds_of_below hx' hxo)
        exact hall x hx' hxo
    · rename_i hfind
      refine ⟨hid, .self, fun x hx hxo => ?_⟩
      rcases hx.exists_child with rfl | ⟨o', ho', c', hc', hx'⟩
      · exact .self
      · cases ho.symm.trans ho'
        exact absurd (inside_iff.2 (h.holds_of_below hx' hxo))
          (List.find?_eq_none.1 hfind c' (List.mem_reverse.2 hc'))

end Nested

end ScopeTree

/-! ### The scopes of a document -/

open Binder ScopeTree

theorem LaidOut.spread {last most : Nat} {range : TextRange} {body : List Node} (h : LaidOut 0 last most body)
    (hplain : Node.SwitchesPlainly ⟨range, .program body⟩) :
    Spread (sizeOf (⟨range, .program body⟩ : Node)) 0 last body where
  small _ hn := sizeOf_lt_of_mem_children _ hn
  le := Nat.zero_le _
  inOrder := h.inOrder
  placed := h.placed
  within := h.within
  plain _ hn m hm := hplain m (.inside hn hm)

/-- Before a walk over a script there is the global scope only. -/
theorem ready_start (limit last : Nat) (tracksAssignments : Bool) :
    (Binder.start tracksAssignments).Ready limit limit 0 last ⟨none, [], 0, 0, 0⟩ := by
  exact {
    linked :=
      { parent := fun ho hne => absurd (Binder.outline?_start ho).1 hne
        children := fun ho hc => by rw [(Binder.outline?_start ho).2] at hc; cases hc
        apart := fun ho a ha => by rw [(Binder.outline?_start ho).2] at ha; cases ha
        shallow := fun ho => by rw [(Binder.outline?_start ho).2]; exact Nat.zero_le _ }
    own := rfl
    starts := Nat.le_refl _
    free := fun c hc => by cases hc
    room := Nat.le_of_eq (Nat.zero_add _) }

/-- The scopes of a script that was laid out are nested, and the global one reaches past the text. -/
theorem nested_bind {last : Nat} {range : TextRange} {body : List Node} (tracksAssignments : Bool)
    (h : LaidOut 0 last (scopesAt 0) body) (hplain : Node.SwitchesPlainly ⟨range, .program body⟩) :
    Nested (scopesAt 0) ((Node.bind ⟨range, .program body⟩ tracksAssignments).close root last) ∧
      ∃ o, ((Node.bind ⟨range, .program body⟩ tracksAssignments).close root last).outline? root = some o ∧
        o.start = 0 ∧ o.stop = last ∧ o.depth = 0 := by
  let b := Binder.start tracksAssignments
  let b' := statements body (b.hoist body)
  have hwalk : Walks (scopesAt 0) (scopesAt 0) 0 last b b' :=
    .after_same (.hoist b body) (walks_statements (walksBelow _) (h.spread hplain) h.scopes)
  obtain ⟨hlinked, new, hgrows⟩ := hwalk _ (ready_start _ last tracksAssignments)
  have hroot : b'.current = root := hgrows.current
  have hown : b'.tree.outline? b'.current = some ⟨none, new, 0, 0, 0⟩ := hgrows.current ▸ hgrows.own
  obtain ⟨-, -, hout⟩ := outline?_leave last hown
  have hleft := linked_leave last hlinked hown fun p hp => by cases hp
  have htree : (b'.leave last).tree = (Node.bind ⟨range, .program body⟩ tracksAssignments).close root last := by
    rw [leave, hroot]
    rfl
  rw [htree] at hleft hout
  have hlast : b'.tree.lastStop new ≤ last := lastStop_le fun c hc oc hoc => ((hgrows.between c hc).2 oc hoc).2
  have hmax : max (max last 0) (b'.tree.lastStop new) = last := by omega
  have hclosed : ((Node.bind ⟨range, .program body⟩ tracksAssignments).close root last).outline? root =
      some ⟨none, new, 0, last, 0⟩ := by
    rw [hout, if_pos hroot.symm]
    simp only [hmax]
  refine ⟨{ toLinked := hleft, covers := fun {id o} ho c hc oc hoc => ?_ }, _, hclosed, rfl, rfl, rfl⟩
  have hne : c ≠ root := by
    obtain ⟨_, -, -, hne⟩ := hleft.children ho hc
    exact hne
  rw [hout, if_neg (hroot ▸ hne)] at hoc
  by_cases hid : id = root
  · subst hid
    cases hclosed.symm.trans ho
    exact ((hgrows.between c hc).2 oc hoc).2
  · rw [hout, if_neg (hroot ▸ hid)] at ho
    exact hgrows.nested id (Nat.pos_iff_ne_zero.2 hid) o ho c hc oc hoc

/-- **The scope found at an offset is the deepest there**: it contains the offset, and every scope
that does is that one or lies around it. -/
theorem scopeAt_deepest (text : List Char) (h : (parseDocument text).1.SwitchesPlainly) {offset : Nat}
    (hoffset : offset ≤ unitLength text) :
    let tree := (bindText {} text).tree
    let found := tree.scopeAt root offset
    (∃ s, tree.get? found = some s ∧ s.contains offset = true) ∧
      ∀ id s, tree.get? id = some s → s.contains offset = true → id ∈ tree.ancestors found := by
  intro tree found
  obtain ⟨range, body, hparse, hlaid⟩ := laidOut_parseDocument text
  have htree : tree = (Node.bind ⟨range, .program body⟩ true).close root (unitLength text + 1) := by
    rw [← hparse]
    rfl
  rw [hparse] at h
  obtain ⟨hnested, o, ho, hstart, hstop, hdepth⟩ := nested_bind true hlaid h
  rw [← htree] at hnested ho
  have hroot : tree.Holds offset root := ⟨o, ho, by omega, by omega⟩
  have hlimit : scopesAt 0 < walkLimit := by decide
  obtain ⟨hfound, -, hall⟩ := hnested.scopeAtWithin_deepest walkLimit ho hroot (by omega)
  refine ⟨holds_iff.1 hfound, fun id s hs hcontains => ?_⟩
  obtain ⟨oid, hoid, -⟩ := holds_iff.2 ⟨s, hs, hcontains⟩
  obtain ⟨of, hof, -⟩ := hfound
  exact hnested.mem_ancestorsWithin (hall id (hnested.below_root id oid hoid) (holds_iff.2 ⟨s, hs, hcontains⟩)) hof
    (Nat.lt_of_le_of_lt (hnested.shallow hof) hlimit)

theorem scopeAt_nested_blocks :
    (parseDocument ['{', '{', '}', '}']).1.SwitchesPlainly ∧
      let tree := (bindText {} ['{', '{', '}', '}']).tree
      let found := tree.scopeAt root 2
      (∃ s, tree.get? found = some s ∧ s.contains 2 = true) ∧
        ∀ id s, tree.get? id = some s → s.contains 2 = true → id ∈ tree.ancestors found := by
  have hparse : (parseDocument ['{', '{', '}', '}']).1 =
      ⟨⟨0, 4⟩, .program [⟨⟨0, 4⟩, .block [⟨⟨1, 3⟩, .block []⟩]⟩]⟩ := by with_unfolding_all rfl
  have hplain : (parseDocument ['{', '{', '}', '}']).1.SwitchesPlainly := by
    rw [hparse]
    intro m hm d hd
    obtain _ | ⟨hc, hm⟩ := hm
    · cases hd
    · obtain rfl := List.mem_singleton.1 hc
      obtain _ | ⟨hc, hm⟩ := hm
      · cases hd
      · obtain rfl := List.mem_singleton.1 hc
        obtain _ | ⟨hc, -⟩ := hm
        · cases hd
        · cases hc
  exact ⟨hplain, scopeAt_deepest ['{', '{', '}', '}'] hplain (by decide)⟩

/-- The scope of a switch starts before what is switched on, and is found where an arrow function
stands there, which does not lie around it. -/
theorem scopeAt_in_discriminant :
    let text := "switch (f(() => { let x = 1; x })) { default: }".toList
    let tree := (bindText {} text).tree
    29 ≤ unitLength text ∧ (tree.get? 1).any (·.contains 29) = true ∧
      1 ∉ tree.ancestors (tree.scopeAt root 29) := by
  decide +kernel

end Typeahead
