/-
# What a walk adds

A walk of the binder adds scopes to those that were there. It leaves the others as they are but for
their names, and lists those it opens under the current one behind what that listed before. Each
lies between two offsets and at most so deep, and if it has a `this` of its own it keeps clear of an
offset that is of interest.

Key definitions: `ScopeKind.bindsThis`, `ScopeTree.frame?`, `Binder.Relabels`, `Binder.Furnishes`,
`Binder.Widens`, `Binder.Fills`.
Key theorems: `Binder.Widens.left`, `Binder.Fills.trans`, `Binder.Fills.scope`.
-/
import Typeahead.Proofs.Scope.Outline

namespace Typeahead

/-- A scope of this kind does not have the `this` of the scope around it. -/
def ScopeKind.bindsThis : ScopeKind → Bool
  | .function | .classBody | .global => true
  | .block | .arrow | .catch => false

namespace Scope

/-- A scope without its names. -/
def frame (scope : Scope) : Scope := { scope with symbols := [] }

/-- A scope lies between two offsets and at most so deep, and has no `this` of its own where it
contains another offset. -/
structure Within (offset lo hi deepest : Nat) (scope : Scope) : Prop where
  starts : lo ≤ scope.start
  stops : scope.stop ≤ hi
  depth : scope.depth ≤ deepest
  clear : scope.kind.bindsThis = true → scope.contains offset = false

theorem Within.mono {offset lo lo' hi hi' deepest deepest' : Nat} {scope : Scope}
    (h : scope.Within offset lo' hi' deepest') (hlo : lo ≤ lo') (hhi : hi' ≤ hi) (hdeep : deepest' ≤ deepest) :
    scope.Within offset lo hi deepest :=
  ⟨Nat.le_trans hlo h.starts, Nat.le_trans h.stops hhi, Nat.le_trans h.depth hdeep, h.clear⟩

end Scope

namespace ScopeTree

variable {tree : ScopeTree} {id other : ScopeId} {s : Scope}

/-- The scope of an id without its names. -/
def frame? (tree : ScopeTree) (id : ScopeId) : Option Scope := (tree.get? id).map (·.frame)

theorem frame?_of_get? (h : tree.get? id = some s) : tree.frame? id = some s.frame := by
  rw [frame?, h, Option.map_some]

theorem frame?_eq_some : tree.frame? id = some s ↔ ∃ t, tree.get? id = some t ∧ t.frame = s :=
  Option.map_eq_some_iff

theorem lt_size_of_frame? (h : tree.frame? id = some s) : id < tree.size := by
  obtain ⟨t, ht, -⟩ := frame?_eq_some.1 h
  exact (Array.getElem?_eq_some_iff.1 ht).1

theorem exists_frame?_of_lt (h : id < tree.size) : ∃ s, tree.frame? id = some s :=
  ⟨_, frame?_of_get? (Array.getElem?_eq_getElem h)⟩

theorem outline?_of_frame? (h : tree.frame? id = some s) : tree.outline? id = some s.outline := by
  obtain ⟨t, ht, rfl⟩ := frame?_eq_some.1 h
  rw [outline?, ht, Option.map_some]
  rfl

/-- The frame of a scope with an outline. -/
theorem exists_frame? {o : Outline} (h : tree.outline? id = some o) :
    ∃ s, tree.frame? id = some s ∧ s.outline = o := by
  obtain ⟨s, hs, rfl⟩ := outline?_eq_some.1 h
  exact ⟨s.frame, frame?_of_get? hs, rfl⟩

theorem frame?_modify {change : Scope → Scope} (h : ∀ s, (change s).frame = s.frame) :
    (tree.modify id change).frame? other = tree.frame? other := by
  rw [frame?, get?_modify, frame?]
  split
  · cases tree.get? other with
    | none => rfl
    | some s => exact congrArg some (h s)
  · rfl

end ScopeTree

namespace Binder

open ScopeTree

variable {b b' c : Binder} {offset lo hi most : Nat} {above : Scope}

/-! ### What changes no frame -/

/-- Two states differ in the names that the scopes hold at most. -/
structure Relabels (b b' : Binder) : Prop where
  current : b'.current = b.current
  size : b'.tree.size = b.tree.size
  frame : ∀ id, b'.tree.frame? id = b.tree.frame? id

namespace Relabels

theorem rfl (b : Binder) : b.Relabels b := ⟨Eq.refl _, Eq.refl _, fun _ => Eq.refl _⟩

theorem trans (h : b.Relabels b') (h' : b'.Relabels c) : b.Relabels c :=
  ⟨h'.current.trans h.current, h'.size.trans h.size, fun id => (h'.frame id).trans (h.frame id)⟩

theorem modify (b : Binder) (id : ScopeId) {change : Scope → Scope} (h : ∀ s, (change s).frame = s.frame) :
    b.Relabels { b with tree := b.tree.modify id change } :=
  ⟨Eq.refl _, size_modify _, fun _ => frame?_modify h⟩

theorem define (b : Binder) (id : ScopeId) (symbol : Symbol) :
    b.Relabels { b with tree := b.tree.define id symbol } :=
  modify b id fun _ => Eq.refl _

theorem declare (b : Binder) (scope : ScopeId) (name : String) (kind : SymbolKind) (type : Option Ty) :
    b.Relabels (b.declare scope name kind type) := by
  rw [Binder.declare]
  split
  · exact rfl b
  · exact define b scope _

theorem foldl {α : Type} {f : Binder → α → Binder} (hf : ∀ (b : Binder) (a : α), b.Relabels (f b a)) :
    ∀ (l : List α) (b : Binder), b.Relabels (l.foldl f b)
  | [], b => rfl b
  | a :: l, b => (hf b a).trans (foldl hf l (f b a))

theorem hoist (b : Binder) (statements : List Node) : b.Relabels (b.hoist statements) := by
  refine foldl (fun b n => ?_) statements b
  split
  · split
    · exact declare ..
    · exact rfl b
  · exact rfl b

theorem declareMembers (b : Binder) (symbol : Symbol) : b.Relabels (b.declareMembers symbol) := by
  rw [Binder.declareMembers]
  split
  · exact foldl (fun b _ => declare b ..) _ b
  · exact rfl b

theorem retype (b : Binder) (id : ScopeId) (name : String) (type : Option Ty) :
    b.Relabels { b with tree := b.tree.retype id name type } := by
  rw [ScopeTree.retype]
  split
  · exact modify b id fun _ => Eq.refl _
  · exact rfl b

theorem refineResult (b : Binder) (declaredIn : ScopeId) (name : String) (scope : ScopeId)
    (parts : FunctionParts Node) : b.Relabels (b.refineResult declaredIn name scope parts) := by
  rw [Binder.refineResult]
  split
  · exact rfl b
  · split
    · exact retype b ..
    · exact rfl b

theorem trackAssignment (b : Binder) (expression : Node) : b.Relabels (b.trackAssignment expression) := by
  rw [Binder.trackAssignment]
  split
  · split
    · split
      · dsimp only
        split
        · exact rfl b
        · exact retype b ..
      · exact rfl b
    · exact rfl b
  · exact rfl b

end Relabels

/-- Two states differ in names, and in the class or function that the open scope belongs to. -/
structure Furnishes (b b' : Binder) : Prop where
  current : b'.current = b.current
  size : b'.tree.size = b.tree.size
  others : ∀ id ≠ b.current, b'.tree.frame? id = b.tree.frame? id
  own : ∀ s, b.tree.frame? b.current = some s →
    ∃ s', b'.tree.frame? b.current = some s' ∧ s'.kind = s.kind ∧ s'.outline = s.outline

namespace Furnishes

theorem of_relabels (h : b.Relabels b') : b.Furnishes b' :=
  ⟨h.current, h.size, fun id _ => h.frame id, fun s hs => ⟨s, (h.frame _).trans hs, Eq.refl _, Eq.refl _⟩⟩

theorem trans (h : b.Furnishes b') (h' : b'.Furnishes c) : b.Furnishes c where
  current := h'.current.trans h.current
  size := h'.size.trans h.size
  others id hne := (h'.others id (h.current.symm ▸ hne)).trans (h.others id hne)
  own s hs := by
    obtain ⟨s', hs', hkind, houtline⟩ := h.own s hs
    obtain ⟨s'', hs'', hkind', houtline'⟩ := h'.own s' (h.current.symm ▸ hs')
    exact ⟨s'', h.current ▸ hs'', hkind'.trans hkind, houtline'.trans houtline⟩

/-- What a change of the open scope makes of its frame. -/
theorem frame?_modify_current (b : Binder) {change : Scope → Scope}
    (h : ∀ s, (change s).frame = (change s.frame).frame)
    {s : Scope} (hs : b.tree.frame? b.current = some s) :
    (b.tree.modify b.current change).frame? b.current = some (change s).frame := by
  obtain ⟨t, ht, rfl⟩ := frame?_eq_some.1 hs
  rw [frame?, get?_modify, if_pos (Eq.refl _), ht, Option.map_some, Option.map_some, h]

theorem modify (b : Binder) {change : Scope → Scope} (h : ∀ s, (change s).frame = (change s.frame).frame)
    (hkeeps : ∀ s, (change s).kind = s.kind ∧ (change s).outline = s.outline) :
    b.Furnishes { b with tree := b.tree.modify b.current change } where
  current := Eq.refl _
  size := size_modify _
  others id hne := by
    dsimp only
    rw [frame?, get?_modify, if_neg (Ne.symm hne), frame?]
  own s hs := ⟨_, frame?_modify_current b h hs, hkeeps s⟩

theorem setClass (b : Binder) (symbol : Symbol) : b.Furnishes (b.setClass symbol) :=
  modify b (fun _ => Eq.refl _) fun _ => ⟨Eq.refl _, Eq.refl _⟩

theorem setFunction (b : Binder) (symbol : Option Symbol) (isStatic : Bool) :
    b.Furnishes (b.setFunction symbol isStatic) := by
  cases symbol with
  | none => exact of_relabels (.rfl b)
  | some symbol => exact modify b (fun _ => Eq.refl _) fun _ => ⟨Eq.refl _, Eq.refl _⟩

/-- What a scope that is changed was, and is. -/
theorem exists_frame?_of_modify {change : Scope → Scope} {s : Scope}
    (h : ∀ s, (change s).frame = (change s.frame).frame)
    (hs : (b.tree.modify b.current change).frame? b.current = some s) : ∃ t, s = (change t).frame := by
  have hlt := lt_size_of_frame? hs
  rw [size_modify] at hlt
  obtain ⟨t, ht⟩ := exists_frame?_of_lt hlt
  exact ⟨t, Option.some.inj (hs.symm.trans (frame?_modify_current b h ht))⟩

/-- The scope that is open has the class that it was given. -/
theorem classSymbol_setClass {symbol : Symbol} {s : Scope}
    (hs : (b.setClass symbol).tree.frame? (b.setClass symbol).current = some s) : s.classSymbol = some symbol := by
  obtain ⟨t, rfl⟩ := exists_frame?_of_modify (fun _ => Eq.refl _) hs
  rfl

theorem isStatic_setFunction {symbol : Symbol} {isStatic : Bool} {s : Scope}
    (hs : (b.setFunction (some symbol) isStatic).tree.frame? (b.setFunction (some symbol) isStatic).current =
      some s) :
    s.isStatic = isStatic := by
  obtain ⟨t, rfl⟩ := exists_frame?_of_modify (fun _ => Eq.refl _) hs
  rfl

end Furnishes

/-! ### Opening and leaving a scope -/

theorem frame?_enter_max (kind : ScopeKind) (start : Nat) (h : b.tree.frame? b.current = some above) :
    (b.enter kind start).current = b.tree.size ∧ (b.enter kind start).tree.size = b.tree.size + 1 ∧
      ∀ id, (b.enter kind start).tree.frame? id =
        if id = b.tree.size then some (.opened kind (some b.current) (max start above.start) (above.depth + 1))
        else if id = b.current then some { above with children := above.children ++ [b.tree.size] }
        else b.tree.frame? id := by
  obtain ⟨t, ht, rfl⟩ := frame?_eq_some.1 h
  obtain ⟨hcurrent, hsize, hget⟩ := get?_enter kind start ht
  refine ⟨hcurrent, hsize, fun id => ?_⟩
  rw [frame?, hget]
  split
  · rfl
  · split
    · rfl
    · rfl

theorem frame?_enter (kind : ScopeKind) {start : Nat} (h : b.tree.frame? b.current = some above)
    (hstart : above.start ≤ start) :
    (b.enter kind start).current = b.tree.size ∧ (b.enter kind start).tree.size = b.tree.size + 1 ∧
      ∀ id, (b.enter kind start).tree.frame? id =
        if id = b.tree.size then some (.opened kind (some b.current) start (above.depth + 1))
        else if id = b.current then some { above with children := above.children ++ [b.tree.size] }
        else b.tree.frame? id := by
  have hmax : max start above.start = start := Nat.max_eq_left hstart
  simpa only [hmax] using frame?_enter_max kind start h

theorem frame?_leave (stop : Nat) {own : Scope} (h : b.tree.frame? b.current = some own) :
    (b.leave stop).current = own.parent.getD b.current ∧ (b.leave stop).tree.size = b.tree.size ∧
      ∀ id, (b.leave stop).tree.frame? id =
        if id = b.current then some { own with stop := max (max stop own.start) (b.tree.lastStop own.children) }
        else b.tree.frame? id := by
  obtain ⟨t, ht, rfl⟩ := frame?_eq_some.1 h
  obtain ⟨hcurrent, hsize, hget⟩ := get?_leave stop ht
  refine ⟨hcurrent, hsize, fun id => ?_⟩
  rw [frame?, hget]
  split
  · rfl
  · rfl

/-! ### Walks -/

/-- On the way from one state to another, in which the scope `above` is the open one, scopes are
opened in that one. The others are as they were but for their names. -/
structure Widens (above : Scope) (b b' : Binder) : Prop where
  current : b'.current = b.current
  size : b.tree.size ≤ b'.tree.size
  own : ∃ new, b'.tree.frame? b.current = some { above with children := above.children ++ new } ∧
    ∀ c ∈ new, b.tree.size ≤ c ∧ c < b'.tree.size
  others : ∀ id < b.tree.size, id ≠ b.current → b'.tree.frame? id = b.tree.frame? id

/-- What the binder adds lies between two offsets and at most so many scopes deep, and none of it
has a `this` of its own around a third offset. -/
structure Adds (offset lo hi most : Nat) (above : Scope) (b b' : Binder) : Prop extends b.Widens above b' where
  added : ∀ id s, b.tree.size ≤ id → b'.tree.frame? id = some s → s.Within offset lo hi (above.depth + most)

/-- Wherever a scope is open that starts no later than at the first offset, the binder adds scopes
on the way from one state to another. -/
def Fills (offset lo hi most : Nat) (b b' : Binder) : Prop :=
  ∀ above, b.tree.frame? b.current = some above → above.start ≤ lo → b.Adds offset lo hi most above b'

/-- A scope just opened and furnished, and what was there before. -/
structure Entered (kind : ScopeKind) (start : Nat) (above own : Scope) (b c : Binder) : Prop where
  current : c.current = b.tree.size
  size : c.tree.size = b.tree.size + 1
  frame : c.tree.frame? c.current = some own
  kind_eq : own.kind = kind
  outline_eq : own.outline = ⟨some b.current, [], start, start, above.depth + 1⟩
  parent : c.tree.frame? b.current = some { above with children := above.children ++ [b.tree.size] }
  others : ∀ id < b.tree.size, id ≠ b.current → c.tree.frame? id = b.tree.frame? id

theorem Furnishes.entered {kind : ScopeKind} {start : Nat} (hc : (b.enter kind start).Furnishes c)
    (hb : b.tree.frame? b.current = some above) (hstart : above.start ≤ start) :
    ∃ own, b.Entered kind start above own c := by
  have hlt := lt_size_of_frame? hb
  obtain ⟨hcurrent, hsize, hframe⟩ := frame?_enter kind hb hstart
  obtain ⟨own, hown, hkind, houtline⟩ := hc.own _ (by rw [hcurrent, hframe, if_pos (Eq.refl _)])
  refine ⟨own, hc.current.trans hcurrent, hc.size.trans hsize, hc.current.symm ▸ hown, hkind, houtline, ?_,
    fun id hid hne => ?_⟩
  · rw [hc.others _ (hcurrent ▸ Nat.ne_of_lt hlt), hframe, if_neg (Nat.ne_of_lt hlt), if_pos (Eq.refl _)]
  · rw [hc.others _ (hcurrent ▸ Nat.ne_of_lt hid), hframe, if_neg (Nat.ne_of_lt hid), if_neg hne]

namespace Widens

theorem relabels (h : b.Relabels b') (hb : b.tree.frame? b.current = some above) : b.Widens above b' where
  current := h.current
  size := Nat.le_of_eq h.size.symm
  own := ⟨[], by simpa [h.frame] using hb, by simp⟩
  others id _ _ := h.frame id

/-- The scope that is open stays, with more scopes under it. -/
theorem frame (h : b.Widens above b') : ∃ new,
    b'.tree.frame? b'.current = some { above with children := above.children ++ new } := by
  obtain ⟨new, hnew, -⟩ := h.own
  exact ⟨new, h.current.symm ▸ hnew⟩

/-- Two walks in a row. -/
theorem trans {new : List ScopeId} (h : b.Widens above b')
    (hnew : b'.tree.frame? b'.current = some { above with children := above.children ++ new })
    (h' : b'.Widens { above with children := above.children ++ new } c) : b.Widens above c where
  current := h'.current.trans h.current
  size := Nat.le_trans h.size h'.size
  own := by
    obtain ⟨first, hfirst, hlater⟩ := h.own
    obtain ⟨second, hsecond, hlater'⟩ := h'.own
    rw [h.current] at hnew hsecond
    have hchildren := congrArg Scope.children (Option.some.inj (hfirst.symm.trans hnew))
    obtain rfl : first = new := List.append_cancel_left hchildren
    refine ⟨first ++ second, by rw [hsecond, List.append_assoc], fun c hc => ?_⟩
    exact (List.mem_append.1 hc).elim (fun hc => ⟨(hlater c hc).1, Nat.lt_of_lt_of_le (hlater c hc).2 h'.size⟩)
      fun hc => ⟨Nat.le_trans h.size (hlater' c hc).1, (hlater' c hc).2⟩
  others id hid hne := by
    rw [h'.others id (Nat.lt_of_lt_of_le hid h.size) (h.current.symm ▸ hne), h.others id hid hne]

/-- What there is once a scope that was opened and walked in is left. -/
theorem left {kind : ScopeKind} {start : Nat} {own : Scope} (stop : Nat) (he : b.Entered kind start above own c)
    (h : c.Widens own b') (hb : b.current < b.tree.size) :
    (b'.leave stop).current = b.current ∧ (b'.leave stop).tree.size = b'.tree.size ∧ b.tree.size < b'.tree.size ∧
      (b'.leave stop).tree.frame? b.current = some { above with children := above.children ++ [b.tree.size] } ∧
      ∃ new, b'.tree.frame? b.tree.size = some { own with children := new } ∧ (∀ c ∈ new, b.tree.size < c) ∧
        ∀ id, (b'.leave stop).tree.frame? id = if id = b.tree.size then
          some { own with children := new, stop := max (max stop own.start) (b'.tree.lastStop new) }
          else b'.tree.frame? id := by
  have hchildren : own.children = [] := congrArg Outline.children he.outline_eq
  have hparent : own.parent = some b.current := congrArg Outline.parent he.outline_eq
  obtain ⟨new, hnew, hlater⟩ := h.own
  rw [he.current, hchildren, List.nil_append] at hnew
  have hcurrent : b'.current = b.tree.size := h.current.trans he.current
  obtain ⟨hback, hsize, hframe⟩ := frame?_leave stop (hcurrent.symm ▸ hnew)
  rw [hcurrent] at hframe
  have hlt : b.tree.size < b'.tree.size := Nat.lt_of_lt_of_le (by rw [he.size]; exact Nat.lt_succ_self _) h.size
  refine ⟨hback.trans ?_, hsize, hlt, ?_, new, hnew, fun c hc => ?_, hframe⟩
  · dsimp only
    rw [hparent, Option.getD_some]
  · rw [hframe, if_neg (Nat.ne_of_lt hb), h.others _ (by rw [he.size]; exact Nat.lt_succ_of_lt hb)
      (by rw [he.current]; exact Nat.ne_of_lt hb), he.parent]
  · exact Nat.lt_of_lt_of_le (by rw [he.size]; exact Nat.lt_succ_self _) (hlater c hc).1

/-- A walk in a scope of its own. -/
theorem scope {kind : ScopeKind} {start : Nat} {own : Scope} (stop : Nat) (he : b.Entered kind start above own c)
    (h : c.Widens own b') (hb : b.current < b.tree.size) : b.Widens above (b'.leave stop) := by
  obtain ⟨hcurrent, hsize, hlt, hparent, new, -, -, hframe⟩ := left stop he h hb
  refine ⟨hcurrent, ?_, ⟨[b.tree.size], hparent, fun c hc => ?_⟩, fun id hid hne => ?_⟩
  · rw [hsize]
    exact Nat.le_of_lt hlt
  · rw [List.mem_singleton.1 hc, hsize]
    exact ⟨Nat.le_refl _, hlt⟩
  · rw [hframe, if_neg (Nat.ne_of_lt hid), h.others id (he.size ▸ Nat.lt_succ_of_lt hid)
      (he.current ▸ Nat.ne_of_lt hid), he.others id hid hne]

end Widens

namespace Fills

theorem relabels (h : b.Relabels b') : b.Fills offset lo hi most b' := fun _ hb _ =>
  { Widens.relabels h hb with
    added := fun id s hid hs => by
      have hlt := lt_size_of_frame? hs
      rw [h.size] at hlt
      exact absurd hlt (Nat.not_lt.2 hid) }

theorem rfl (b : Binder) : b.Fills offset lo hi most b := relabels (.rfl b)

theorem mono {lo' hi' most' : Nat} (h : b.Fills offset lo' hi' most' b') (hlo : lo ≤ lo') (hhi : hi' ≤ hi)
    (hmost : most' ≤ most) : b.Fills offset lo hi most b' := fun above hb hstart =>
  have hadds := h above hb (Nat.le_trans hstart hlo)
  { hadds with
    added := fun id s hid hs => (hadds.added id s hid hs).mono hlo hhi (Nat.add_le_add_left hmost _) }

theorem trans (h : b.Fills offset lo hi most b') (h' : b'.Fills offset lo hi most c) :
    b.Fills offset lo hi most c := by
  intro above hb hstart
  have hfirst := h above hb hstart
  obtain ⟨new, hnew⟩ := hfirst.frame
  have hsecond := h' _ hnew hstart
  refine { hfirst.toWidens.trans hnew hsecond.toWidens with added := fun id s hid hs => ?_ }
  by_cases hlt : id < b'.tree.size
  · have hne : id ≠ b'.current := by
      rw [hfirst.current]
      exact Nat.ne_of_gt (Nat.lt_of_lt_of_le (lt_size_of_frame? hb) hid)
    exact hfirst.added id s hid ((hsecond.others id hlt hne).symm.trans hs)
  · exact hsecond.added id s (Nat.le_of_not_lt hlt) hs

theorem after (h : b.Relabels b') (h' : b'.Fills offset lo hi most c) : b.Fills offset lo hi most c :=
  (relabels h).trans h'

theorem before (h : b.Fills offset lo hi most b') (h' : b'.Relabels c) : b.Fills offset lo hi most c :=
  h.trans (relabels h')

/-- **A walk in a scope of its own** adds that scope and those that it adds in it. -/
theorem scope {kind : ScopeKind} {start stop hi' : Nat} (hc : (b.enter kind start).Furnishes c)
    (h : c.Fills offset start hi' most b') (hlo : lo ≤ start) (hstart : start ≤ hi') (hstop : stop ≤ hi')
    (hhi : hi' ≤ hi) (hclear : kind.bindsThis = true → ¬ (start ≤ offset ∧ offset < hi')) :
    b.Fills offset lo hi (most + 1) (b'.leave stop) := by
  intro above hb habove
  obtain ⟨own, he⟩ := hc.entered hb (Nat.le_trans habove hlo)
  have hownstart : own.start = start := congrArg Outline.start he.outline_eq
  have howndepth : own.depth = above.depth + 1 := congrArg Outline.depth he.outline_eq
  have hwalk := h own he.frame (Nat.le_of_eq hownstart)
  obtain ⟨-, -, -, -, new, -, hlater, hframe⟩ := Widens.left stop he hwalk.toWidens (lt_size_of_frame? hb)
  have hlast : b'.tree.lastStop new ≤ hi' := lastStop_le fun id hid o ho => by
    obtain ⟨s, hs, rfl⟩ := exists_frame? ho
    exact (hwalk.added id s (by rw [he.size]; exact hlater id hid) hs).stops
  refine { Widens.scope stop he hwalk.toWidens (lt_size_of_frame? hb) with added := fun id s hid hs => ?_ }
  rw [hframe] at hs
  split at hs
  · -- the scope itself
    cases hs
    refine ⟨hownstart ▸ hlo, ?_, ?_, fun hbinds => ?_⟩
    · dsimp only
      omega
    · dsimp only
      omega
    · have hnot := hclear (he.kind_eq ▸ hbinds)
      simp only [Scope.contains, Bool.and_eq_false_iff, decide_eq_false_iff_not, hownstart]
      omega
  · rename_i hne
    have hlater : c.tree.size ≤ id := by
      rw [he.size]
      exact Nat.lt_of_le_of_ne hid (Ne.symm hne)
    refine (hwalk.added id s hlater hs).mono hlo hhi ?_
    omega

end Fills

end Binder
end Typeahead
