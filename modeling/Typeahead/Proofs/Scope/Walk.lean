/-
# How a walk of the binder adds scopes

A part of the binder's walk stays between two offsets, and finds the space between them free of
the scopes that were opened before in the current scope. It returns to the scope it started
from, whose new children lie in that space; the scopes under them lie in one another, and no
two under the same scope have an offset in common. Walks over pieces that have no offset in
common follow one another, in the order of the text or not.

Key definitions: `ScopeTree.Linked`, `Binder.Ready`, `Binder.Grows`, `Binder.Walks`.
Key theorems: `Binder.Walks.trans`, `Binder.Walks.scope`.
-/
import Typeahead.Proofs.Scope.Outline

namespace Typeahead

/-- Two scopes have no offset in common. -/
def Outline.Apart (a b : Outline) : Prop := a.stop ≤ b.start ∨ b.stop ≤ a.start

/-- What stays of a scope while others are opened in it and closed. -/
structure Outline.Keeps (o o' : Outline) : Prop where
  parent : o'.parent = o.parent
  start : o'.start = o.start
  depth : o'.depth = o.depth
  children : o.children ⊆ o'.children

namespace ScopeTree

/-- The scopes form a tree: each but the global one is a child of a scope that was opened sooner
and starts no later, and the children of a scope have no offset in common. None lies deeper
than a limit. -/
structure Linked (limit : Nat) (tree : ScopeTree) : Prop where
  parent : ∀ {id o}, tree.outline? id = some o → id ≠ root → ∃ p op, o.parent = some p ∧ p < id ∧
    tree.outline? p = some op ∧ id ∈ op.children ∧ op.start ≤ o.start ∧ o.depth = op.depth + 1
  children : ∀ {id o c}, tree.outline? id = some o → c ∈ o.children →
    ∃ oc, tree.outline? c = some oc ∧ oc.parent = some id ∧ c ≠ root
  apart : ∀ {id o}, tree.outline? id = some o → ∀ a ∈ o.children, ∀ b ∈ o.children, a ≠ b →
    ∀ oa ob, tree.outline? a = some oa → tree.outline? b = some ob → oa.Apart ob
  shallow : ∀ {id o}, tree.outline? id = some o → o.depth ≤ limit

variable {limit : Nat} {tree : ScopeTree} {id c : ScopeId} {o : Outline}

/-- A scope is opened after the one it lies in. -/
theorem Linked.lt_child (h : Linked limit tree) (ho : tree.outline? id = some o) (hc : c ∈ o.children) : id < c := by
  obtain ⟨oc, hoc, hparent, hne⟩ := h.children ho hc
  obtain ⟨p, _, hp, hlt, -⟩ := h.parent hoc hne
  cases hparent.symm.trans hp
  exact hlt

theorem Linked.child_lt_size (h : Linked limit tree) (ho : tree.outline? id = some o) (hc : c ∈ o.children) :
    c < tree.size := by
  obtain ⟨oc, hoc, -⟩ := h.children ho hc
  exact lt_size_of_outline? hoc

/-- What a scope lies in stays while scopes keep what they are. -/
theorem Linked.parent_of_keeps {tree' : ScopeTree} (h : Linked limit tree)
    (hk : ∀ id o, tree.outline? id = some o → ∃ o', tree'.outline? id = some o' ∧ o.Keeps o')
    {o' : Outline} (ho : tree.outline? id = some o) (ho' : tree'.outline? id = some o') (hne : id ≠ root) :
    ∃ p op, o'.parent = some p ∧ p < id ∧ tree'.outline? p = some op ∧ id ∈ op.children ∧
      op.start ≤ o'.start ∧ o'.depth = op.depth + 1 := by
  obtain ⟨p, op, hp, hlt, hop, hmem, hstart, hdepth⟩ := h.parent ho hne
  obtain ⟨op', hop', hkeeps⟩ := hk p op hop
  obtain ⟨o'', ho'', hown⟩ := hk id o ho
  cases ho''.symm.trans ho'
  refine ⟨p, op', hown.parent.trans hp, hlt, hop', hkeeps.children hmem, ?_, ?_⟩
  · rw [hkeeps.start, hown.start]
    exact hstart
  · rw [hkeeps.depth, hown.depth]
    exact hdepth

end ScopeTree

namespace Binder

open ScopeTree

variable {limit most lo hi : Nat} {b b' c : Binder}

/-- What the binder needs before a walk between two offsets: they are free of the scopes in the
current one, and scopes may still lie one in another so many times. -/
structure Ready (limit most lo hi : Nat) (b : Binder) (o : Outline) : Prop where
  linked : Linked limit b.tree
  own : b.tree.outline? b.current = some o
  starts : o.start ≤ lo
  free : ∀ c ∈ o.children, ∀ oc, b.tree.outline? c = some oc → oc.stop ≤ lo ∨ hi ≤ oc.start
  room : o.depth + most ≤ limit

/-- What a walk between two offsets adds: children of the current scope between them, and scopes
in these, each of which covers those in it. -/
structure Grows (most lo hi : Nat) (b b' : Binder) (o : Outline) (new : List ScopeId) : Prop where
  current : b'.current = b.current
  size : b.tree.size ≤ b'.tree.size
  own : b'.tree.outline? b.current = some { o with children := o.children ++ new }
  others : ∀ id < b.tree.size, id ≠ b.current → b'.tree.outline? id = b.tree.outline? id
  between : ∀ c ∈ new, b.tree.size ≤ c ∧ ∀ oc, b'.tree.outline? c = some oc → lo ≤ oc.start ∧ oc.stop ≤ hi
  nested : ∀ id, b.tree.size ≤ id → ∀ o, b'.tree.outline? id = some o → ∀ c ∈ o.children,
    ∀ oc, b'.tree.outline? c = some oc → oc.stop ≤ o.stop
  quiet : most = 0 → b.SameOutline b'

/-- The binder gets from one state to another by a walk between two offsets, in which at most so
many scopes lie one in another. -/
def Walks (limit most lo hi : Nat) (b b' : Binder) : Prop :=
  ∀ o, b.Ready limit most lo hi o → Linked limit b'.tree ∧ ∃ new, b.Grows most lo hi b' o new

/-! ### Opening and leaving a scope -/

/-- Opening a scope in free space links it. -/
theorem linked_enter (kind : ScopeKind) {start : Nat} {o : Outline} (hb : b.Ready limit (most + 1) lo hi o)
    (hlo : lo ≤ start) (hhi : start ≤ hi) : Linked limit (b.enter kind start).tree := by
  have hlt := lt_size_of_outline? hb.own
  obtain ⟨-, -, hout⟩ := outline?_enter kind hb.own (Nat.le_trans hb.starts hlo)
  have hold : ∀ id oid, b.tree.outline? id = some oid → ∃ o', (b.enter kind start).tree.outline? id = some o' ∧
      oid.Keeps o' ∧ o'.stop = oid.stop := by
    intro id oid hid
    rw [hout, if_neg (Nat.ne_of_lt (lt_size_of_outline? hid))]
    split
    · rename_i heq
      subst heq
      cases hid.symm.trans hb.own
      exact ⟨_, rfl, ⟨rfl, rfl, rfl, List.subset_append_left ..⟩, rfl⟩
    · exact ⟨oid, hid, ⟨rfl, rfl, rfl, List.Subset.refl _⟩, rfl⟩
  have hkeeps := fun id oid hid => (hold id oid hid).imp fun _ h => And.intro h.1 h.2.1
  have hnew : (b.enter kind start).tree.outline? b.tree.size =
      some ⟨some b.current, [], start, start, o.depth + 1⟩ := by rw [hout, if_pos rfl]
  have hparent : (b.enter kind start).tree.outline? b.current =
      some { o with children := o.children ++ [b.tree.size] } := by
    rw [hout, if_neg (Nat.ne_of_lt hlt), if_pos rfl]
  -- a scope after the step is the new one, the one that it lies in, or as it was before
  have hcases : ∀ id o', (b.enter kind start).tree.outline? id = some o' →
      (id = b.tree.size ∧ o' = ⟨some b.current, [], start, start, o.depth + 1⟩) ∨
      (id = b.current ∧ o' = { o with children := o.children ++ [b.tree.size] }) ∨
      b.tree.outline? id = some o' := by
    intro id o' ho'
    rw [hout] at ho'
    split at ho'
    · rename_i heq
      exact .inl ⟨heq, (Option.some.inj ho').symm⟩
    · split at ho'
      · rename_i heq
        exact .inr (.inl ⟨heq, (Option.some.inj ho').symm⟩)
      · exact .inr (.inr ho')
  have hchild : ∀ {id oid}, b.tree.outline? id = some oid → ∀ c ∈ oid.children, ∀ oc,
      (b.enter kind start).tree.outline? c = some oc →
        ∃ oc', b.tree.outline? c = some oc' ∧ oc.start = oc'.start ∧ oc.stop = oc'.stop := by
    intro id oid hid c hc oc hoc
    obtain ⟨oc', hoc', -⟩ := hb.linked.children hid hc
    obtain ⟨oc'', hoc'', hkept, hstop⟩ := hold c oc' hoc'
    cases hoc''.symm.trans hoc
    exact ⟨oc', hoc', hkept.start, hstop⟩
  have hfree : ∀ c ∈ o.children, ∀ oc, (b.enter kind start).tree.outline? c = some oc →
      oc.stop ≤ start ∨ start ≤ oc.start := by
    intro c hc oc hoc
    obtain ⟨oc', hoc', hstart, hstop⟩ := hchild hb.own c hc oc hoc
    rw [hstart, hstop]
    exact (hb.free c hc oc' hoc').imp (Nat.le_trans · hlo) (Nat.le_trans hhi ·)
  refine ⟨fun {id o'} ho' hne => ?_, fun {id o' c} ho' hc => ?_, fun {id o'} ho' x hx y hy hne ox oy hox hoy => ?_,
    fun {id o'} ho' => ?_⟩
  · by_cases heq : id = b.tree.size
    · subst heq
      cases hnew.symm.trans ho'
      exact ⟨b.current, _, rfl, hlt, hparent, by simp, Nat.le_trans hb.starts hlo, rfl⟩
    · obtain ⟨oid, hoid⟩ : ∃ oid, b.tree.outline? id = some oid := by
        rcases hcases id o' ho' with ⟨h, -⟩ | ⟨rfl, -⟩ | h
        · exact absurd h heq
        · exact ⟨o, hb.own⟩
        · exact ⟨o', h⟩
      exact hb.linked.parent_of_keeps hkeeps hoid ho' hne
  · have hin : ∀ {oid}, b.tree.outline? id = some oid → c ∈ oid.children →
        ∃ oc, (b.enter kind start).tree.outline? c = some oc ∧ oc.parent = some id ∧ c ≠ root := by
      intro oid hoid hc
      obtain ⟨oc, hoc, hp, hne⟩ := hb.linked.children hoid hc
      obtain ⟨oc', hoc', hkept⟩ := hkeeps c oc hoc
      exact ⟨oc', hoc', hkept.parent.trans hp, hne⟩
    rcases hcases id o' ho' with ⟨-, rfl⟩ | ⟨rfl, rfl⟩ | h
    · cases hc
    · rcases List.mem_append.1 hc with hc | hc
      · exact hin hb.own hc
      · rw [List.mem_singleton.1 hc]
        exact ⟨_, hnew, rfl, Nat.ne_of_gt (Nat.zero_lt_of_lt hlt)⟩
    · exact hin h hc
  · have hin : ∀ {oid}, b.tree.outline? id = some oid → x ∈ oid.children → y ∈ oid.children → ox.Apart oy := by
      intro oid hoid hx hy
      obtain ⟨ox', hox', hxstart, hxstop⟩ := hchild hoid x hx ox hox
      obtain ⟨oy', hoy', hystart, hystop⟩ := hchild hoid y hy oy hoy
      rw [Outline.Apart, hxstart, hxstop, hystart, hystop]
      exact hb.linked.apart hoid x hx y hy hne ox' oy' hox' hoy'
    rcases hcases id o' ho' with ⟨-, rfl⟩ | ⟨rfl, rfl⟩ | h
    · cases hx
    · rcases List.mem_append.1 hx with hx | hx <;> rcases List.mem_append.1 hy with hy | hy
      · exact hin hb.own hx hy
      · rw [List.mem_singleton.1 hy] at hoy
        cases hnew.symm.trans hoy
        exact hfree x hx ox hox
      · rw [List.mem_singleton.1 hx] at hox
        cases hnew.symm.trans hox
        exact (hfree y hy oy hoy).symm
      · exact absurd ((List.mem_singleton.1 hx).trans (List.mem_singleton.1 hy).symm) hne
    · exact hin h hx hy
  · rcases hcases id o' ho' with ⟨-, rfl⟩ | ⟨rfl, rfl⟩ | h
    · have := hb.room
      simp only
      omega
    · exact (hb.linked.shallow hb.own : o.depth ≤ limit)
    · exact hb.linked.shallow h

/-- Leaving a scope in free space keeps it linked. -/
theorem linked_leave (stop : Nat) {own : Outline} (h : Linked limit b.tree)
    (hown : b.tree.outline? b.current = some own)
    (hfree : ∀ p, own.parent = some p → ∀ op, b.tree.outline? p = some op → ∀ c ∈ op.children, c ≠ b.current →
      ∀ oc, b.tree.outline? c = some oc → oc.stop ≤ own.start ∨
        max (max stop own.start) (b.tree.lastStop own.children) ≤ oc.start) :
    Linked limit (b.leave stop).tree := by
  obtain ⟨-, -, hout⟩ := outline?_leave _ hown
  have hkeeps : ∀ id oid, b.tree.outline? id = some oid →
      ∃ o', (b.leave stop).tree.outline? id = some o' ∧ oid.Keeps o' := by
    intro id oid hid
    rw [hout]
    split
    · rename_i heq
      subst heq
      cases hid.symm.trans hown
      exact ⟨_, rfl, rfl, rfl, rfl, List.Subset.refl _⟩
    · exact ⟨oid, hid, rfl, rfl, rfl, List.Subset.refl _⟩
  -- a scope after the step is the one that was left, or as it was before
  have hcases : ∀ id o', (b.leave stop).tree.outline? id = some o' → ∃ oid, b.tree.outline? id = some oid ∧
      o'.children = oid.children ∧ o'.start = oid.start ∧ o'.depth = oid.depth ∧
      (id ≠ b.current → o' = oid) ∧
      (id = b.current → o'.stop = max (max stop own.start) (b.tree.lastStop own.children)) := by
    intro id o' ho'
    rw [hout] at ho'
    split at ho'
    · rename_i heq
      subst heq
      cases ho'
      exact ⟨own, hown, rfl, rfl, rfl, fun hne => absurd rfl hne, fun _ => rfl⟩
    · rename_i hne
      exact ⟨o', ho', rfl, rfl, rfl, fun _ => rfl, fun heq => absurd heq hne⟩
  -- what lies beside the scope that was left is free of it
  have hbeside : ∀ {id oid}, b.tree.outline? id = some oid → b.current ∈ oid.children → ∀ c ∈ oid.children,
      c ≠ b.current → ∀ oc, b.tree.outline? c = some oc → oc.stop ≤ own.start ∨
        max (max stop own.start) (b.tree.lastStop own.children) ≤ oc.start := by
    intro id oid hoid hmem c hc hne oc hoc
    obtain ⟨oc', hoc', hparent, -⟩ := h.children hoid hmem
    cases hoc'.symm.trans hown
    exact hfree id hparent oid hoid c hc hne oc hoc
  refine ⟨fun {id o'} ho' hne => ?_, fun {id o' c} ho' hc => ?_, fun {id o'} ho' x hx y hy hne ox oy hox hoy => ?_,
    fun {id o'} ho' => ?_⟩
  · obtain ⟨oid, hoid, -⟩ := hcases id o' ho'
    exact h.parent_of_keeps hkeeps hoid ho' hne
  · obtain ⟨oid, hoid, hchildren, -⟩ := hcases id o' ho'
    obtain ⟨oc, hoc, hparent, hne⟩ := h.children hoid (hchildren ▸ hc)
    obtain ⟨oc', hoc', hkept⟩ := hkeeps c oc hoc
    exact ⟨oc', hoc', hkept.parent.trans hparent, hne⟩
  · obtain ⟨oid, hoid, hchildren, -⟩ := hcases id o' ho'
    rw [hchildren] at hx hy
    obtain ⟨ox', hox', -, hxstart, -, hxkeeps, hxleft⟩ := hcases x ox hox
    obtain ⟨oy', hoy', -, hystart, -, hykeeps, hyleft⟩ := hcases y oy hoy
    by_cases hxc : x = b.current
    · subst hxc
      cases hox'.symm.trans hown
      rw [hykeeps (Ne.symm hne), Outline.Apart, hxleft rfl, hxstart]
      exact (hbeside hoid hx y hy (Ne.symm hne) oy' hoy').symm
    · by_cases hyc : y = b.current
      · subst hyc
        cases hoy'.symm.trans hown
        rw [hxkeeps hne, Outline.Apart, hyleft rfl, hystart]
        exact hbeside hoid hy x hx hne ox' hox'
      · rw [hxkeeps hxc, hykeeps hyc]
        exact h.apart hoid x hx y hy hne ox' oy' hox' hoy'
  · obtain ⟨oid, hoid, -, -, hdepth, -⟩ := hcases id o' ho'
    rw [hdepth]
    exact h.shallow hoid

/-! ### Scopes that stay -/

theorem Ready.mono {most' lo' hi' : Nat} {o : Outline} (h : b.Ready limit most lo hi o) (hmost : most' ≤ most)
    (hlo : lo ≤ lo') (hhi : hi' ≤ hi) : b.Ready limit most' lo' hi' o where
  linked := h.linked
  own := h.own
  starts := Nat.le_trans h.starts hlo
  free c hc oc hoc := (h.free c hc oc hoc).imp (Nat.le_trans · hlo) (Nat.le_trans hhi ·)
  room := Nat.le_trans (Nat.add_le_add_left hmost _) h.room

theorem Grows.mono {most' lo' hi' : Nat} {o : Outline} {new : List ScopeId} (h : b.Grows most' lo' hi' b' o new)
    (hmost : most' ≤ most) (hlo : lo ≤ lo') (hhi : hi' ≤ hi) : b.Grows most lo hi b' o new :=
  { h with
    between := fun c hc => ⟨(h.between c hc).1, fun oc hoc =>
      ⟨Nat.le_trans hlo ((h.between c hc).2 oc hoc).1, Nat.le_trans ((h.between c hc).2 oc hoc).2 hhi⟩⟩
    quiet := fun hzero => h.quiet (by omega) }

theorem SameOutline.linked (h : b.SameOutline b') (hb : Linked limit b.tree) : Linked limit b'.tree where
  parent := fun {id o} ho hne => by
    simp only [h.outline] at ho ⊢
    exact hb.parent ho hne
  children := fun {id o c} ho hc => by
    simp only [h.outline] at ho ⊢
    exact hb.children ho hc
  apart := fun {id o} ho => by
    simp only [h.outline] at ho ⊢
    exact hb.apart ho
  shallow := fun {id o} ho => hb.shallow ((h.outline id).symm.trans ho)

theorem SameOutline.ready {o : Outline} (h : b.SameOutline b') (hb : b.Ready limit most lo hi o) :
    b'.Ready limit most lo hi o where
  linked := h.linked hb.linked
  own := by rw [h.outline, h.current]; exact hb.own
  starts := hb.starts
  free c hc oc hoc := hb.free c hc oc ((h.outline c).symm.trans hoc)
  room := hb.room

theorem SameOutline.grows {o : Outline} (h : b.SameOutline b') (ho : b.tree.outline? b.current = some o) :
    b.Grows most lo hi b' o [] where
  current := h.current
  size := Nat.le_of_eq h.size.symm
  own := by simpa [h.outline] using ho
  others id _ _ := h.outline id
  between _ hc := by cases hc
  nested id hid o ho := by
    have hlt := lt_size_of_outline? ho
    rw [h.size] at hlt
    exact absurd hlt (Nat.not_lt.2 hid)
  quiet _ := h

theorem SameOutline.trans_grows {o : Outline} {new : List ScopeId} (h : b.SameOutline b')
    (h' : b'.Grows most lo hi c o new) : b.Grows most lo hi c o new where
  current := h'.current.trans h.current
  size := Nat.le_trans (Nat.le_of_eq h.size.symm) h'.size
  own := h.current ▸ h'.own
  others id hid hne := (h'.others id (h.size.symm ▸ hid) (h.current.symm ▸ hne)).trans (h.outline id)
  between c hc := ⟨h.size ▸ (h'.between c hc).1, (h'.between c hc).2⟩
  nested id hid := h'.nested id (h.size.symm ▸ hid)
  quiet hzero := h.trans (h'.quiet hzero)

/-- The children that a scope had before it grows stay as they are. -/
theorem Grows.child {o : Outline} {new : List ScopeId} (h : b.Grows most lo hi b' o new)
    (hb : Linked limit b.tree) (ho : b.tree.outline? b.current = some o) {c : ScopeId} (hc : c ∈ o.children) :
    b'.tree.outline? c = b.tree.outline? c :=
  h.others c (hb.child_lt_size ho hc) (Nat.ne_of_gt (hb.lt_child ho hc))

/-- After a walk the binder is ready for another that has no offset in common with it. -/
theorem Grows.ready {most₁ lo₁ hi₁ most₂ lo₂ hi₂ : Nat} {o : Outline} {new : List ScopeId}
    (h : b.Grows most₁ lo₁ hi₁ b' o new) (hb : b.Ready limit most lo hi o) (hb' : Linked limit b'.tree)
    (hmost : most₂ ≤ most) (hlo : lo ≤ lo₂) (hhi : hi₂ ≤ hi) (hapart : hi₁ ≤ lo₂ ∨ hi₂ ≤ lo₁) :
    b'.Ready limit most₂ lo₂ hi₂ { o with children := o.children ++ new } where
  linked := hb'
  own := by rw [h.current]; exact h.own
  starts := Nat.le_trans hb.starts hlo
  free c hc oc hoc := by
    rcases List.mem_append.1 hc with hc | hc
    · rw [h.child hb.linked hb.own hc] at hoc
      exact (hb.free c hc oc hoc).imp (Nat.le_trans · hlo) (Nat.le_trans hhi ·)
    · obtain ⟨hstart, hstop⟩ := (h.between c hc).2 oc hoc
      exact hapart.imp (Nat.le_trans hstop ·) (Nat.le_trans · hstart)
  room := Nat.le_trans (Nat.add_le_add_left hmost _) hb.room

/-- Two walks in a row make one. -/
theorem Grows.trans {o : Outline} {new new' : List ScopeId} (h : b.Grows most lo hi b' o new)
    (h' : b'.Grows most lo hi c { o with children := o.children ++ new } new') (hb' : Linked limit b'.tree)
    (hlt : b.current < b.tree.size) : b.Grows most lo hi c o (new ++ new') where
  current := h'.current.trans h.current
  size := Nat.le_trans h.size h'.size
  own := by rw [← h.current, h'.own, List.append_assoc]
  others id hid hne := by
    rw [h'.others id (Nat.lt_of_lt_of_le hid h.size) (h.current.symm ▸ hne), h.others id hid hne]
  between c hc := by
    rcases List.mem_append.1 hc with hc | hc
    · obtain ⟨hsize, hbetween⟩ := h.between c hc
      have hchild := hb'.child_lt_size h.own (List.mem_append_right _ hc)
      have hne : c ≠ b'.current := h.current ▸ Nat.ne_of_gt (Nat.lt_of_lt_of_le hlt hsize)
      exact ⟨hsize, fun oc hoc => hbetween oc ((h'.others c hchild hne).symm.trans hoc)⟩
    · exact ⟨Nat.le_trans h.size (h'.between c hc).1, (h'.between c hc).2⟩
  nested id hid oid hoid child hchild oc hoc := by
    by_cases hsize : id < b'.tree.size
    · have hne : id ≠ b'.current := h.current ▸ Nat.ne_of_gt (Nat.lt_of_lt_of_le hlt hid)
      have hoid' := (h'.others id hsize hne).symm.trans hoid
      have hgt : id < child := hb'.lt_child hoid' hchild
      have hne' : child ≠ b'.current :=
        h.current ▸ Nat.ne_of_gt (Nat.lt_trans (Nat.lt_of_lt_of_le hlt hid) hgt)
      exact h.nested id hid oid hoid' child hchild oc
        ((h'.others child (hb'.child_lt_size hoid' hchild) hne').symm.trans hoc)
    · exact h'.nested id (Nat.le_of_not_lt hsize) oid hoid child hchild oc hoc
  quiet hzero := (h.quiet hzero).trans (h'.quiet hzero)

/-! ### Walks -/

namespace Walks

theorem mono {most' lo' hi' : Nat} (h : Walks limit most' lo' hi' b b') (hmost : most' ≤ most)
    (hlo : lo ≤ lo') (hhi : hi' ≤ hi) : Walks limit most lo hi b b' := by
  intro o hb
  obtain ⟨hlinked, new, hgrows⟩ := h o (hb.mono hmost hlo hhi)
  exact ⟨hlinked, new, hgrows.mono hmost hlo hhi⟩

theorem same (h : b.SameOutline b') : Walks limit most lo hi b b' :=
  fun _ hb => ⟨h.linked hb.linked, [], h.grows hb.own⟩

/-- **Walks over pieces with no offset in common follow one another**, whichever comes first. -/
theorem apart {lo₁ hi₁ lo₂ hi₂ : Nat} (h : Walks limit most lo₁ hi₁ b b') (h' : Walks limit most lo₂ hi₂ b' c)
    (hlo₁ : lo ≤ lo₁) (hhi₁ : hi₁ ≤ hi) (hlo₂ : lo ≤ lo₂) (hhi₂ : hi₂ ≤ hi)
    (hapart : hi₁ ≤ lo₂ ∨ hi₂ ≤ lo₁) : Walks limit most lo hi b c := by
  intro o hb
  obtain ⟨hlinked, new, hgrows⟩ := h o (hb.mono (Nat.le_refl _) hlo₁ hhi₁)
  obtain ⟨hlinked', new', hgrows'⟩ := h' _ (hgrows.ready hb hlinked (Nat.le_refl _) hlo₂ hhi₂ hapart)
  exact ⟨hlinked', new ++ new', (hgrows.mono (Nat.le_refl _) hlo₁ hhi₁).trans
    (hgrows'.mono (Nat.le_refl _) hlo₂ hhi₂) hlinked (lt_size_of_outline? hb.own)⟩

/-- A walk over one piece and then over what follows it. -/
theorem trans {middle : Nat} (h : Walks limit most lo middle b b') (h' : Walks limit most middle hi b' c)
    (hlo : lo ≤ middle) (hhi : middle ≤ hi) : Walks limit most lo hi b c :=
  h.apart h' (Nat.le_refl _) hhi hlo (Nat.le_refl _) (.inl (Nat.le_refl _))

/-- A walk over a piece and then over what comes before it. -/
theorem back {middle : Nat} (h : Walks limit most middle hi b b') (h' : Walks limit most lo middle b' c)
    (hlo : lo ≤ middle) (hhi : middle ≤ hi) : Walks limit most lo hi b c :=
  h.apart h' hlo (Nat.le_refl _) (Nat.le_refl _) hhi (.inr (Nat.le_refl _))

theorem after_same (h : b.SameOutline b') (h' : Walks limit most lo hi b' c) : Walks limit most lo hi b c := by
  intro o hb
  obtain ⟨hlinked, new, hgrows⟩ := h' o (h.ready hb)
  exact ⟨hlinked, new, h.trans_grows hgrows⟩

/-- A walk in which no scope opens takes no space. -/
theorem after_quiet {lo' hi' : Nat} (h : Walks limit 0 lo' hi' b b') (h' : Walks limit most lo hi b' c)
    (hlo : lo ≤ lo') (hhi : hi' ≤ hi) : Walks limit most lo hi b c := by
  intro o hb
  obtain ⟨-, new, hgrows⟩ := h o (hb.mono (Nat.zero_le _) hlo hhi)
  exact after_same (hgrows.quiet rfl) h' o hb

theorem before_same (h : Walks limit most lo hi b b') (h' : b'.SameOutline c) (hle : lo ≤ hi) :
    Walks limit most lo hi b c := h.trans (same h') hle (Nat.le_refl _)

/-- **A walk in a scope of its own** takes the space from where the scope starts. -/
theorem scope {kind : ScopeKind} {start stop : Nat} (h : Walks limit most start hi (b.enter kind start) b')
    (hlo : lo ≤ start) (hhi : start ≤ hi) (hstop : stop ≤ hi) :
    Walks limit (most + 1) lo hi b (b'.leave stop) := by
  intro o hb
  have hlt := lt_size_of_outline? hb.own
  obtain ⟨hcurrent, hsize, hout⟩ := outline?_enter kind hb.own (Nat.le_trans hb.starts hlo)
  have hlinked := linked_enter kind hb hlo hhi
  have hready : (b.enter kind start).Ready limit most start hi ⟨some b.current, [], start, start, o.depth + 1⟩ :=
    { linked := hlinked
      own := by rw [hcurrent, hout, if_pos rfl]
      starts := Nat.le_refl _
      free := fun c hc => by cases hc
      room := by have := hb.room; simp only; omega }
  obtain ⟨hlinked', new, hgrows⟩ := h _ hready
  have hcurrent' : b'.current = b.tree.size := hgrows.current.trans hcurrent
  have hown : b'.tree.outline? b'.current = some ⟨some b.current, new, start, start, o.depth + 1⟩ := by
    rw [hgrows.current, hgrows.own]
    rfl
  have hlast : b'.tree.lastStop new ≤ hi := lastStop_le fun c hc oc hoc => ((hgrows.between c hc).2 oc hoc).2
  obtain ⟨hback, hsize', hout'⟩ := outline?_leave _ hown
  have hle : max (max stop start) (b'.tree.lastStop new) ≤ hi := by omega
  have hsizes : b.tree.size < b'.tree.size := Nat.lt_of_lt_of_le (by rw [hsize]; exact Nat.lt_succ_self _) hgrows.size
  -- scopes that were there before the walk are as they were, but for the new child
  have hbefore : ∀ id < b.tree.size, id ≠ b.current → b'.tree.outline? id = b.tree.outline? id := by
    intro id hid hne
    rw [hgrows.others id (by rw [hsize]; exact Nat.lt_succ_of_lt hid) (by rw [hcurrent]; exact Nat.ne_of_lt hid),
      hout, if_neg (Nat.ne_of_lt hid), if_neg hne]
  have hparent : b'.tree.outline? b.current = some { o with children := o.children ++ [b.tree.size] } := by
    rw [hgrows.others b.current (by rw [hsize]; exact Nat.lt_succ_of_lt hlt)
      (by rw [hcurrent]; exact Nat.ne_of_lt hlt), hout, if_neg (Nat.ne_of_lt hlt), if_pos rfl]
  have hleft : ∀ id, id ≠ b.tree.size → (b'.leave stop).tree.outline? id = b'.tree.outline? id := by
    intro id hne
    rw [hout', if_neg (hcurrent'.symm ▸ hne)]
  have hclosed : (b'.leave stop).tree.outline? b.tree.size =
      some ⟨some b.current, new, start, max (max stop start) (b'.tree.lastStop new), o.depth + 1⟩ := by
    rw [hout', if_pos hcurrent'.symm]
  refine ⟨linked_leave _ hlinked' hown fun p hp op hop c hc hne oc hoc => ?_, [b.tree.size], ?_⟩
  · cases hp
    cases hparent.symm.trans hop
    rw [hcurrent'] at hne
    have hmem : c ∈ o.children := (List.mem_append.1 hc).resolve_right fun h => hne (List.mem_singleton.1 h)
    have hlt' := hb.linked.child_lt_size hb.own hmem
    rw [hbefore c hlt' (Nat.ne_of_gt (hb.linked.lt_child hb.own hmem))] at hoc
    exact (hb.free c hmem oc hoc).imp (Nat.le_trans · hlo) (Nat.le_trans hle ·)
  · refine ⟨hback, by rw [hsize']; exact Nat.le_of_lt hsizes, ?_, fun id hid hne => ?_, fun c hc => ?_,
      fun id hid oid hoid c hc oc hoc => ?_, fun h => by omega⟩
    · rw [hleft _ (Nat.ne_of_lt hlt)]
      exact hparent
    · rw [hleft _ (Nat.ne_of_lt hid)]
      exact hbefore id hid hne
    · rw [List.mem_singleton.1 hc]
      refine ⟨Nat.le_refl _, fun oc hoc => ?_⟩
      cases hclosed.symm.trans hoc
      exact ⟨hlo, hle⟩
    · by_cases heq : id = b.tree.size
      · subst heq
        cases hclosed.symm.trans hoid
        have hgt : b.tree.size < c := hcurrent' ▸ hlinked'.lt_child hown hc
        rw [hleft _ (Nat.ne_of_gt hgt)] at hoc
        exact Nat.le_trans (stop_le_lastStop hc hoc) (Nat.le_max_right ..)
      · rw [hleft _ heq] at hoid
        have hgt : b.tree.size < id := Nat.lt_of_le_of_ne hid (Ne.symm heq)
        rw [hleft _ (Nat.ne_of_gt (Nat.lt_trans hgt (hlinked'.lt_child hoid hc)))] at hoc
        exact hgrows.nested id (by rw [hsize]; exact hgt) oid hoid c hc oc hoc

end Walks

end Binder
end Typeahead
