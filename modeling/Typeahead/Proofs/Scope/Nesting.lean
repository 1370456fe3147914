/-
# The scopes of a text nest

Whatever the text, every scope but the global one lies under one that was opened before it, which
lists it once and covers its range. The pieces of a tree that breaks off may stop later than their
node does, so this does not follow from the ranges of the tree: a scope starts no sooner than the
one around it because opening it sees to that, and ends no later because closing the outer one
does. While the script is bound the scopes around the open one are not closed yet, so the invariant
leaves them out.

Key definitions: `ScopeTree.WellNested`, `ScopeTree.Around`, `Binder.Nests`.
Key theorems: `Binder.Nests.step`, `wellNested_bindText`.
-/
import Typeahead.Proofs.Layout.Script
import Typeahead.Proofs.Scope.Keep
import Typeahead.Proofs.Scope.Steps

namespace Typeahead

open Text

namespace ScopeTree

/-- The scopes nest: the global one starts with the text and stops at an offset, and every other
lies in the range of its parent, which was opened before it and lists it once. What a scope lists
lies under it, so no other scope lists it. -/
structure WellNested (tree : ScopeTree) (last : Nat) : Prop where
  global : ∃ s, tree.get? root = some s ∧ s.parent = none ∧ s.start = 0 ∧ s.stop = last
  below : ∀ id s, tree.get? id = some s → id ≠ root → ∃ p above, s.parent = some p ∧
    tree.get? p = some above ∧ p < id ∧ above.children.count id = 1 ∧ s.depth = above.depth + 1 ∧
    s.start ≤ s.stop ∧ above.start ≤ s.start ∧ s.stop ≤ above.stop
  listed : ∀ p above id, tree.get? p = some above → id ∈ above.children →
    ∃ s, tree.get? id = some s ∧ s.parent = some p

/-- Where every scope hangs: it lies under one that was opened before it and starts no later. -/
structure Hangs (tree : ScopeTree) : Prop where
  global : ∃ o, tree.outline? root = some o ∧ o.parent = none ∧ o.start = 0
  below : ∀ {id o}, tree.outline? id = some o → id ≠ root → ∃ p above, o.parent = some p ∧
    tree.outline? p = some above ∧ p < id ∧ above.children.count id = 1 ∧ o.depth = above.depth + 1 ∧
    above.start ≤ o.start
  listed : ∀ {p above id}, tree.outline? p = some above → id ∈ above.children →
    ∃ o, tree.outline? id = some o ∧ o.parent = some p

/-- A scope is closed: it ends no sooner than it starts and than what it lists ends. -/
def Closed (tree : ScopeTree) (last : Nat) (id : ScopeId) : Prop :=
  ∀ o, tree.outline? id = some o → o.start ≤ o.stop ∧ o.stop ≤ last ∧
    ∀ c ∈ o.children, ∀ oc, tree.outline? c = some oc → oc.stop ≤ o.stop

/-- The scope `outer` is `id` or lies around it. -/
inductive Around (tree : ScopeTree) : ScopeId → ScopeId → Prop
  | self (id : ScopeId) : Around tree id id
  | above {id p outer : ScopeId} {o : Outline} : tree.outline? id = some o → o.parent = some p →
      Around tree p outer → Around tree id outer

variable {tree tree' : ScopeTree} {last : Nat} {id c outer : ScopeId} {o : Outline}

theorem Hangs.lt_of_listed (h : tree.Hangs) (ho : tree.outline? id = some o) (hc : c ∈ o.children) : id < c := by
  obtain ⟨oc, hoc, hparent⟩ := h.listed ho hc
  have hne : c ≠ root := by
    rintro rfl
    obtain ⟨g, hg, hnone, -⟩ := h.global
    cases hoc.symm.trans hg
    cases hnone.symm.trans hparent
  obtain ⟨p, _, hp, -, hlt, -⟩ := h.below hoc hne
  cases hparent.symm.trans hp
  exact hlt

/-- A scope that lies under another is a child of it. -/
theorem Hangs.of_parent (h : tree.Hangs) {p : ScopeId} (ho : tree.outline? id = some o) (hp : o.parent = some p) :
    ∃ above, tree.outline? p = some above ∧ id ∈ above.children ∧ o.depth = above.depth + 1 := by
  have hne : id ≠ root := by
    rintro rfl
    obtain ⟨g, hg, hnone, -⟩ := h.global
    cases ho.symm.trans hg
    cases hnone.symm.trans hp
  obtain ⟨p', above, hp', habove, -, hcount, hdepth, -⟩ := h.below ho hne
  cases hp.symm.trans hp'
  exact ⟨above, habove, List.count_pos_iff.1 (hcount ▸ Nat.one_pos), hdepth⟩

theorem Hangs.parent_lt (h : tree.Hangs) {p : ScopeId} (ho : tree.outline? id = some o) (hp : o.parent = some p) :
    p < id := by
  obtain ⟨_, habove, hlisted, -⟩ := h.of_parent ho hp
  exact h.lt_of_listed habove hlisted

/-- Nothing lies around the global scope. -/
theorem Hangs.eq_root (h : tree.Hangs) (ha : tree.Around root outer) : outer = root := by
  cases ha with
  | self => rfl
  | above ho hp =>
    obtain ⟨g, hg, hnone, -⟩ := h.global
    cases ho.symm.trans hg
    cases hnone.symm.trans hp

/-- What lies around a scope was opened before it. -/
theorem Hangs.le_of_around (h : tree.Hangs) (ha : tree.Around id outer) : outer ≤ id := by
  induction ha with
  | self id => exact Nat.le_refl id
  | above ho hp _ ih => exact Nat.le_trans ih (Nat.le_of_lt (h.parent_lt ho hp))

/-- What lies around a scope does as long as scopes keep their parents. -/
theorem Around.mono (ha : tree.Around id outer)
    (h : ∀ id o, tree.outline? id = some o → ∃ o', tree'.outline? id = some o' ∧ o'.parent = o.parent) :
    tree'.Around id outer := by
  induction ha with
  | self id => exact .self id
  | above ho hp _ ih =>
    obtain ⟨o', ho', hparent⟩ := h _ _ ho
    exact .above ho' (hparent.trans hp) ih

/-- What a walk to the global scope visits lies around the scope that it starts from. -/
theorem around_of_mem_ancestorsWithin : ∀ {steps : Nat} {id : ScopeId}, outer ∈ tree.ancestorsWithin steps id →
    tree.Around id outer
  | 0, _, h => by cases h
  | steps + 1, id, h => by
    rw [ancestorsWithin] at h
    split at h
    · cases h
    · rename_i s hs
      split at h
      · cases List.mem_singleton.1 h
        exact .self _
      · rename_i p hp
        rcases List.mem_cons.1 h with rfl | h
        · exact .self outer
        · exact .above (outline?_eq_some.2 ⟨s, hs, rfl⟩) hp (around_of_mem_ancestorsWithin h)

/-- A tree is another one with a scope more, which starts no sooner than the one it lies in. -/
structure Extends (tree tree' : ScopeTree) (parent : ScopeId) (above : Outline) (start : Nat) : Prop where
  size : tree'.size = tree.size + 1
  outer : tree.outline? parent = some above
  new : tree'.outline? tree.size =
    some ⟨some parent, [], max start above.start, max start above.start, above.depth + 1⟩
  old : ∀ {id o}, tree.outline? id = some o → tree'.outline? id =
    some { o with children := o.children ++ if id = parent then [tree.size] else [] }

/-- A tree has the same scopes as another one, but they may end elsewhere. -/
structure SameShape (tree tree' : ScopeTree) : Prop where
  size : tree'.size = tree.size
  shape : ∀ {id o}, tree.outline? id = some o → ∃ stop, tree'.outline? id = some { o with stop }

theorem Extends.cases {parent : ScopeId} {above : Outline} {start : Nat} (h : tree.Extends tree' parent above start)
    (ho : tree'.outline? id = some o) : id = tree.size ∨ ∃ old, tree.outline? id = some old := by
  have hlt : id < tree.size + 1 := by
    rw [← h.size]
    exact lt_size_of_outline? ho
  rcases Nat.lt_or_ge id tree.size with hid | hid
  · exact .inr (exists_outline? hid)
  · exact .inl (Nat.le_antisymm (Nat.le_of_lt_succ hlt) hid)

theorem Hangs.not_listed (h : tree.Hangs) (ho : tree.outline? id = some o) : tree.size ∉ o.children := by
  intro hc
  obtain ⟨oc, hoc, -⟩ := h.listed ho hc
  exact Nat.lt_irrefl _ (lt_size_of_outline? hoc)

theorem Hangs.extends {parent : ScopeId} {above : Outline} {start : Nat} (h : tree.Hangs)
    (he : tree.Extends tree' parent above start) : tree'.Hangs := by
  refine ⟨?_, fun {id o} ho hne => ?_, fun {p op id} hop hc => ?_⟩
  · obtain ⟨g, hg, hparent, hzero⟩ := h.global
    exact ⟨_, he.old hg, hparent, hzero⟩
  · rcases he.cases ho with rfl | ⟨old, hid⟩
    · cases he.new.symm.trans ho
      refine ⟨_, _, rfl, he.old he.outer, lt_size_of_outline? he.outer, ?_, rfl, Nat.le_max_right ..⟩
      rw [if_pos rfl, List.count_append, List.count_eq_zero_of_not_mem (h.not_listed he.outer),
        List.count_singleton_self]
    · cases (he.old hid).symm.trans ho
      obtain ⟨p, op, hp, hop, hlt, hcount, hdepth, hle⟩ := h.below hid hne
      refine ⟨p, _, hp, he.old hop, hlt, ?_, hdepth, hle⟩
      have hlater : tree.size ≠ id := Nat.ne_of_gt (lt_size_of_outline? hid)
      rw [List.count_append, hcount]
      split
      · rw [List.count_singleton, beq_eq_false_iff_ne.2 hlater]
        rfl
      · rfl
  · rcases he.cases hop with rfl | ⟨old, hp⟩
    · cases he.new.symm.trans hop
      cases hc
    · cases (he.old hp).symm.trans hop
      rcases List.mem_append.1 hc with hc | hc
      · obtain ⟨o, ho, hparent⟩ := h.listed hp hc
        exact ⟨_, he.old ho, hparent⟩
      · split at hc
        · rename_i heq
          cases List.mem_singleton.1 hc
          exact ⟨_, he.new, congrArg some heq.symm⟩
        · cases hc

/-- To move the end of a scope leaves every scope in its place. -/
theorem SameShape.of_closed {own : Outline} {stop : Nat} (hown : tree.outline? id = some own)
    (hsize : tree'.size = tree.size)
    (h : ∀ other, tree'.outline? other = if other = id then some { own with stop } else tree.outline? other) :
    tree.SameShape tree' := by
  refine ⟨hsize, fun {other o} ho => ?_⟩
  rw [h]
  split
  · rename_i heq
    subst heq
    cases ho.symm.trans hown
    exact ⟨_, rfl⟩
  · exact ⟨o.stop, ho⟩

theorem SameShape.back (h : tree.SameShape tree') (ho : tree'.outline? id = some o) :
    ∃ old, tree.outline? id = some old ∧ ∃ stop, o = { old with stop } := by
  obtain ⟨old, hold⟩ := exists_outline? (h.size ▸ lt_size_of_outline? ho)
  obtain ⟨stop, hnew⟩ := h.shape hold
  exact ⟨old, hold, stop, Option.some.inj (ho.symm.trans hnew)⟩

theorem Hangs.sameShape (h : tree.Hangs) (hs : tree.SameShape tree') : tree'.Hangs := by
  refine ⟨?_, fun {id o} ho hne => ?_, fun {p op id} hop hc => ?_⟩
  · obtain ⟨g, hg, hparent, hzero⟩ := h.global
    obtain ⟨_, hg'⟩ := hs.shape hg
    exact ⟨_, hg', hparent, hzero⟩
  · obtain ⟨old, hold, _, rfl⟩ := hs.back ho
    obtain ⟨p, above, hp, habove, hrest⟩ := h.below hold hne
    obtain ⟨_, habove'⟩ := hs.shape habove
    exact ⟨p, _, hp, habove', hrest⟩
  · obtain ⟨old, hold, _, rfl⟩ := hs.back hop
    obtain ⟨o, ho, hparent⟩ := h.listed hold hc
    obtain ⟨_, ho'⟩ := hs.shape ho
    exact ⟨_, ho', hparent⟩

end ScopeTree

namespace Binder

open ScopeTree

variable {b b' : Binder} {last : Nat}

/-- Opening a scope adds it to the tree. -/
theorem extends_enter (kind : ScopeKind) (start : Nat) {above : Outline}
    (h : b.tree.outline? b.current = some above) :
    b.tree.Extends (b.enter kind start).tree b.current above start := by
  obtain ⟨-, hsize, hout⟩ := outline?_enter_max kind start h
  refine ⟨hsize, h, by rw [hout, if_pos rfl], fun {id o} ho => ?_⟩
  rw [hout, if_neg (Nat.ne_of_lt (lt_size_of_outline? ho))]
  split
  · rename_i heq
    subst heq
    cases ho.symm.trans h
    rfl
  · rw [ho, List.append_nil]

/-- The scopes opened so far nest. Those around the open one are not closed yet. -/
structure Nests (last : Nat) (b : Binder) : Prop where
  hangs : b.tree.Hangs
  isOpen : b.current < b.tree.size
  starts : ∀ id o, b.tree.outline? id = some o → o.start ≤ last
  closed : ∀ id, ¬ b.tree.Around b.current id → b.tree.Closed last id

namespace Nests

theorem start (last : Nat) (tracksAssignments : Bool) : (Binder.start tracksAssignments).Nests last := by
  refine ⟨⟨⟨_, rfl, rfl, rfl⟩, fun ho hne => absurd (outline?_start ho).1 hne, fun ho hc => ?_⟩, Nat.one_pos,
    fun id o ho => ?_, fun id hnot o ho => ?_⟩
  · rw [(outline?_start ho).2] at hc
    cases hc
  · rw [(outline?_start ho).2]
    exact Nat.zero_le last
  · obtain ⟨rfl, -⟩ := outline?_start ho
    exact absurd (.self _) hnot

/-- A change of what scopes hold leaves them nested. -/
theorem of_same (h : b.Nests last) (hs : b.SameOutline b') : b'.Nests last := by
  have houtline : b'.tree.outline? = b.tree.outline? := funext hs.outline
  have hshape : b.tree.SameShape b'.tree := ⟨hs.size, fun {id o} ho => ⟨o.stop, houtline ▸ ho⟩⟩
  refine ⟨h.hangs.sameShape hshape, by rw [hs.current, hs.size]; exact h.isOpen, by rw [houtline]; exact h.starts,
    fun id hnot o ho => ?_⟩
  rw [houtline] at ho ⊢
  refine h.closed id (fun ha => hnot ?_) o ho
  rw [hs.current]
  exact ha.mono fun id o ho => ⟨o, houtline ▸ ho, rfl⟩

/-- A scope just opened lies in the one that was open. -/
theorem enter (h : b.Nests last) (kind : ScopeKind) {start : Nat} (hstart : start ≤ last) :
    (b.enter kind start).Nests last := by
  obtain ⟨above, habove⟩ := exists_outline? h.isOpen
  obtain ⟨hcurrent, hsize, -⟩ := outline?_enter_max kind start habove
  have he := extends_enter kind start habove
  generalize b.enter kind start = entered at hcurrent hsize he ⊢
  have haround : ∀ {outer}, b.tree.Around b.current outer → entered.tree.Around entered.current outer := by
    intro outer ha
    rw [hcurrent]
    exact .above he.new rfl (ha.mono fun id o ho => ⟨_, he.old ho, rfl⟩)
  refine ⟨h.hangs.extends he, by rw [hcurrent, hsize]; exact Nat.lt_succ_self _, fun id o ho => ?_,
    fun id hnot o ho => ?_⟩
  · rcases he.cases ho with rfl | ⟨old, hid⟩
    · cases he.new.symm.trans ho
      exact Nat.max_le.2 ⟨hstart, h.starts _ _ habove⟩
    · cases (he.old hid).symm.trans ho
      exact h.starts id old hid
  · rcases he.cases ho with rfl | ⟨old, hid⟩
    · exact absurd (hcurrent ▸ .self _) hnot
    · have hne : id ≠ b.current := fun heq => hnot (haround (heq ▸ .self _))
      cases (he.old hid).symm.trans ho
      obtain ⟨hle, hlast, hchildren⟩ := h.closed id (fun ha => hnot (haround ha)) old hid
      refine ⟨hle, hlast, fun c hc oc hoc => ?_⟩
      simp only [if_neg hne, List.append_nil] at hc
      obtain ⟨old', hold', -⟩ := h.hangs.listed hid hc
      cases (he.old hold').symm.trans hoc
      exact hchildren c hc old' hold'

/-- What the open scope lists is closed. -/
theorem closed_of_listed (h : b.Nests last) {own : Outline} (hown : b.tree.outline? b.current = some own) {c : ScopeId}
    (hc : c ∈ own.children) : b.tree.Closed last c :=
  h.closed c fun ha => Nat.not_le_of_gt (h.hangs.lt_of_listed hown hc) (h.hangs.le_of_around ha)

/-- A scope that is left ends where what it lists ends or later. -/
theorem leave (h : b.Nests last) {stop : Nat} (hstop : stop ≤ last) : (b.leave stop).Nests last := by
  obtain ⟨own, hown⟩ := exists_outline? h.isOpen
  obtain ⟨hcurrent, hsize, hout⟩ := outline?_leave stop hown
  generalize b.leave stop = left at hcurrent hsize hout ⊢
  have hself : left.tree.outline? b.current =
      some { own with stop := max (max stop own.start) (b.tree.lastStop own.children) } := by
    rw [hout, if_pos rfl]
  have hother : ∀ {id}, id ≠ b.current → left.tree.outline? id = b.tree.outline? id := by
    intro id hne
    rw [hout, if_neg hne]
  have hshape : b.tree.SameShape left.tree := .of_closed hown hsize hout
  have haround : ∀ {id}, ¬ left.tree.Around left.current id → b.tree.Around b.current id → id = b.current := by
    intro id hnot ha
    cases ha with
    | self => rfl
    | above ho hp hrest =>
      cases hown.symm.trans ho
      rw [hp] at hcurrent
      refine absurd (hrest.mono fun id o ho => ?_) (hcurrent ▸ hnot)
      obtain ⟨_, ho'⟩ := hshape.shape ho
      exact ⟨_, ho', rfl⟩
  refine ⟨h.hangs.sameShape hshape, ?_, fun id o ho => ?_, fun id hnot o ho => ?_⟩
  · rw [hcurrent, hsize]
    by_cases hroot : b.current = root
    · obtain ⟨g, hg, hnone, -⟩ := h.hangs.global
      cases (hroot ▸ hown).symm.trans hg
      rw [hnone]
      exact h.isOpen
    · obtain ⟨p, above, hp, habove, -⟩ := h.hangs.below hown hroot
      rw [hp]
      exact lt_size_of_outline? habove
  · obtain ⟨old, hold, _, rfl⟩ := hshape.back ho
    exact h.starts id old hold
  · by_cases hid : id = b.current
    · subst hid
      cases hself.symm.trans ho
      refine ⟨Nat.le_trans (Nat.le_max_right ..) (Nat.le_max_left ..), ?_, fun c hc oc hoc => ?_⟩
      · exact Nat.max_le.2 ⟨Nat.max_le.2 ⟨hstop, h.starts _ _ hown⟩,
          lastStop_le fun c hc oc hoc => (h.closed_of_listed hown hc oc hoc).2.1⟩
      · rw [hother (Nat.ne_of_gt (h.hangs.lt_of_listed hown hc))] at hoc
        exact Nat.le_trans (stop_le_lastStop hc hoc) (Nat.le_max_right ..)
    · have hold := (hother hid).symm.trans ho
      obtain ⟨hle, hlast, hchildren⟩ := h.closed id (fun ha => hid (haround hnot ha)) o hold
      refine ⟨hle, hlast, fun c hc oc hoc => hchildren c hc oc ((hother ?_).symm.trans hoc)⟩
      -- a scope that lists the one just left lies around it, so it is not closed yet
      rintro rfl
      obtain ⟨_, hown', hp⟩ := h.hangs.listed hold hc
      cases hown.symm.trans hown'
      rw [hp] at hcurrent
      exact hnot (hcurrent ▸ .self _)

/-- **Every step of the binder keeps the scopes nested.** -/
theorem step (hs : Step last b b') (h : b.Nests last) : b'.Nests last := by
  cases hs with
  | enter kind hstart => exact h.enter kind hstart
  | leave hstop => exact h.leave hstop
  | define id symbol => exact h.of_same (.define b id symbol)
  | retype id name type => exact h.of_same (.retype b id name type)
  | setClass symbol => exact h.of_same (.setClass b symbol)
  | setFunction symbol isStatic => exact h.of_same (.setFunction b symbol isStatic)

/-- Once only the global scope is open, closing it leaves every scope closed. -/
theorem wellNested (h : b.Nests last) (hcurrent : b.current = root) : (b.tree.close root last).WellNested last := by
  obtain ⟨own, hown, hparent, hzero⟩ := h.hangs.global
  have hleft := h.leave (Nat.le_refl last)
  obtain ⟨hcurrent', -, hout⟩ := outline?_leave last (hcurrent ▸ hown)
  have htree : (b.leave last).tree = b.tree.close root last := by rw [Binder.leave, hcurrent]
  have hback : (b.leave last).current = root := by rw [hcurrent', hparent, hcurrent, Option.getD_none]
  rw [hcurrent] at hout
  have hroot : (b.leave last).tree.outline? root =
      some { own with stop := max (max last own.start) (b.tree.lastStop own.children) } := by rw [hout, if_pos rfl]
  rw [← htree]
  have hlast : b.tree.lastStop own.children ≤ last := lastStop_le fun c hc oc hoc =>
    (h.closed_of_listed (hcurrent ▸ hown) hc oc hoc).2.1
  have hclosed : ∀ id, id ≠ root → (b.leave last).tree.Closed last id := fun id hne =>
    hleft.closed id fun ha => hne (hleft.hangs.eq_root (hback ▸ ha))
  have hstop : ∀ s, (b.leave last).tree.get? root = some s → s.parent = none ∧ s.start = 0 ∧ s.stop = last := by
    intro s hs
    have ho : s.outline = _ := Option.some.inj ((outline?_eq_some.2 ⟨s, hs, rfl⟩).symm.trans hroot)
    refine ⟨(congrArg Outline.parent ho).trans hparent, (congrArg Outline.start ho).trans hzero,
      (congrArg Outline.stop ho).trans ?_⟩
    dsimp only
    omega
  refine ⟨?_, fun id s hs hne => ?_, fun p above id habove hc => ?_⟩
  · obtain ⟨s, hs, -⟩ := outline?_eq_some.1 hroot
    exact ⟨s, hs, hstop s hs⟩
  · have ho := outline?_eq_some.2 ⟨s, hs, rfl⟩
    obtain ⟨p, _, hp, hop, hlt, hcount, hdepth, hstart⟩ := hleft.hangs.below ho hne
    obtain ⟨above, habove, rfl⟩ := outline?_eq_some.1 hop
    obtain ⟨hle, hsLast, -⟩ := hclosed id hne _ ho
    refine ⟨p, above, hp, habove, hlt, hcount, hdepth, hle, hstart, ?_⟩
    by_cases hpRoot : p = root
    · rw [(hstop above (hpRoot ▸ habove)).2.2]
      exact hsLast
    · have hc : id ∈ above.children := List.count_pos_iff.1 (hcount ▸ Nat.one_pos)
      exact (hclosed p hpRoot _ hop).2.2 id hc _ ho
  · obtain ⟨_, ho, hparent⟩ := hleft.hangs.listed (outline?_eq_some.2 ⟨above, habove, rfl⟩) hc
    obtain ⟨s, hs, rfl⟩ := outline?_eq_some.1 ho
    exact ⟨s, hs, hparent⟩

end Nests

/-- The scopes of a script that was laid out nest. -/
theorem wellNested_bind {range : TextRange} {body : List Node} {most : Nat} (tracksAssignments : Bool)
    (h : LaidOut 0 last most body) :
    ((Node.bind ⟨range, .program body⟩ tracksAssignments).close root last).WellNested last := by
  let b := Binder.start tracksAssignments
  let b' := statements body (b.hoist body)
  have hcurrent : b'.current = root := by
    have hhoist := SameOutline.hoist b body
    have hkeeps := keeps_statements body (b.hoist body) (by rw [hhoist.current, hhoist.size]; exact Nat.one_pos)
    exact hkeeps.current.trans hhoist.current
  exact ((runs_script tracksAssignments h).invariant (fun hs hb => hb.step hs)
    (Nests.start last tracksAssignments)).wellNested hcurrent

end Binder

/-- **The scopes of every text nest**, however it is bound: the global one covers the text and one
offset more, and every other lies in the range of its parent. -/
theorem wellNested_bindText (options : BindOptions) (text : List Char) :
    (bindText options text).tree.WellNested (unitLength text + 1) := by
  rw [bindText]
  split
  · obtain ⟨range, body, hparse, hlaid⟩ := laidOut_parseDocument text
    dsimp only
    rw [hparse]
    exact Binder.wellNested_bind options.tracksAssignments hlaid
  · split
    · rename_i program hparse
      obtain ⟨range, body, rfl, hlaid⟩ := laidOut_parseProgram hparse
      exact Binder.wellNested_bind options.tracksAssignments hlaid
    · exact (Binder.Nests.start (unitLength text + 1) true).wellNested rfl

end Typeahead
