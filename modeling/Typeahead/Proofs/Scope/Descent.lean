/-
# Going down to an offset

From a scope the search for an offset goes down to the last opened child around it. Blocks, arrow
functions and `catch` clauses have the `this` of the scope around them; so where the search comes to
the function of a method, and no other function and no class opened after it is around the offset,
`this` at the offset is that of the method.

Key definitions: `ScopeTree.covers`, `ScopeTree.Leads`, `ScopeTree.HasThis`.
Key theorems: `ScopeTree.Leads.mono`, `ScopeTree.HasThis.thisType`, `ScopeTree.thisType_scopeAt`.
-/
import Typeahead.Proofs.Scope.Additions
import Typeahead.Proofs.Scope.Nesting

namespace Typeahead

/-- What a scope takes its `this` from. -/
structure Scope.SameThis (s s' : Scope) : Prop where
  kind : s'.kind = s.kind
  parent : s'.parent = s.parent
  isStatic : s'.isStatic = s.isStatic
  classSymbol : s'.classSymbol = s.classSymbol

namespace ScopeTree

variable {tree tree' : ScopeTree} {offset last : Nat} {id c f p : ScopeId} {s above : Scope} {good : Ty → Prop}

/-- The offset lies in the scope. -/
def covers (tree : ScopeTree) (offset : Nat) (id : ScopeId) : Bool :=
  ((tree.get? id).map (·.contains offset)).getD false

theorem covers_eq : tree.covers offset id = ((tree.frame? id).map (·.contains offset)).getD false := by
  rw [covers, frame?]
  cases tree.get? id with
  | none => rfl
  | some s => rfl

theorem covers_of_frame? (h : tree.frame? id = some s) : tree.covers offset id = s.contains offset := by
  rw [covers_eq, h, Option.map_some, Option.getD_some]

/-- The search for an offset goes down from one scope to another: at each scope on the way to the last
child around the offset. -/
inductive Leads (tree : ScopeTree) (offset : Nat) : ScopeId → ScopeId → Prop
  | self (id : ScopeId) : Leads tree offset id id
  | down {id c f : ScopeId} {s : Scope} (front back : List ScopeId) : tree.frame? id = some s →
      s.children = front ++ c :: back → id < c → tree.covers offset c = true →
      (∀ d ∈ back, id < d ∧ d < tree.size ∧ tree.covers offset d = false) → Leads tree offset c f →
      Leads tree offset id f

/-- The type of `this` in a scope is as it should be: the scope takes it from the one around it, or is
the function of a method and takes it from the class body around it. -/
inductive HasThis (tree : ScopeTree) (good : Ty → Prop) : ScopeId → Prop
  | outer {id p : ScopeId} {s : Scope} : tree.frame? id = some s → s.kind.bindsThis = false → s.parent = some p →
      HasThis tree good p → HasThis tree good id
  | method {id p : ScopeId} {s above : Scope} : tree.frame? id = some s → s.kind = .function → s.parent = some p →
      tree.frame? p = some above → above.kind = .classBody →
      good (classOnSide above (if s.isStatic then .constructorSide else .instanceSide)) → HasThis tree good id

/-! ### What keeps them -/

/-- The search goes the same way as long as scopes get more children only behind those that they have,
and none of these around the offset. -/
theorem Leads.mono (h : tree.Leads offset id f) (hsize : tree.size ≤ tree'.size)
    (hcovers : ∀ d, id < d → d < tree.size → tree'.covers offset d = tree.covers offset d)
    (hframe : ∀ d s, id ≤ d → tree.frame? d = some s → ∃ s' new, tree'.frame? d = some s' ∧
      s'.children = s.children ++ new ∧ ∀ e ∈ new, d < e ∧ e < tree'.size ∧ tree'.covers offset e = false) :
    tree'.Leads offset id f := by
  induction h with
  | self id => exact .self id
  | @down id c f s front back hs hchildren hlt hc hback _ ih =>
    obtain ⟨s', new, hs', hchildren', hnew⟩ := hframe id s (Nat.le_refl _) hs
    have hcsize : c < tree.size := by
      by_contra hge
      rw [covers, show tree.get? c = none from Array.getElem?_eq_none (Nat.le_of_not_lt hge)] at hc
      cases hc
    refine .down front (back ++ new) hs' ?_ hlt ((hcovers c hlt hcsize).trans hc)
      (fun d hd => ?_) (ih (fun d hd => hcovers d (Nat.lt_trans hlt hd))
        fun d s hd => hframe d s (Nat.le_trans (Nat.le_of_lt hlt) hd))
    · rw [hchildren', hchildren, List.append_assoc, List.cons_append]
    · rcases List.mem_append.1 hd with hd | hd
      · obtain ⟨hgt, hin, hout⟩ := hback d hd
        exact ⟨hgt, Nat.lt_of_lt_of_le hin hsize, (hcovers d hgt hin).trans hout⟩
      · exact hnew d hd

theorem HasThis.mono (h : tree.HasThis good id)
    (hframe : ∀ d s, tree.frame? d = some s → ∃ s', tree'.frame? d = some s' ∧ s.SameThis s') :
    tree'.HasThis good id := by
  induction h with
  | outer hs hkind hparent _ ih =>
    obtain ⟨s', hs', hsame⟩ := hframe _ _ hs
    exact .outer hs' (by rw [hsame.kind, hkind]) (hsame.parent.trans hparent) ih
  | method hs hkind hparent habove hclass hgood =>
    obtain ⟨s', hs', hsame⟩ := hframe _ _ hs
    obtain ⟨above', habove', hsame'⟩ := hframe _ _ habove
    refine .method hs' (hsame.kind.trans hkind) (hsame.parent.trans hparent) habove' (hsame'.kind.trans hclass) ?_
    rw [classOnSide, hsame'.classSymbol, hsame.isStatic]
    exact hgood

/-! ### What is found -/

/-- The depth of a scope that has one around it. -/
theorem WellNested.depth (hn : tree.WellNested last) (hs : tree.get? id = some s) (hp : s.parent = some p) :
    ∃ above, tree.get? p = some above ∧ p < id ∧ s.depth = above.depth + 1 := by
  have hne : id ≠ root := by
    rintro rfl
    obtain ⟨g, hg, hnone, -⟩ := hn.global
    cases hs.symm.trans hg
    cases hnone.symm.trans hp
  obtain ⟨p', above, hp', habove, hlt, -, hdepth, -⟩ := hn.below id s hs hne
  cases hp.symm.trans hp'
  exact ⟨above, habove, hlt, hdepth⟩

theorem HasThis.thisTypeIn (hn : tree.WellNested last) (h : tree.HasThis good id) :
    ∀ {steps s}, tree.get? id = some s → s.depth < steps →
      good (thisTypeIn ((tree.ancestorsWithin steps id).filterMap tree.get?)) := by
  induction h with
  | @outer id p s hs hkind hparent _ ih =>
    intro steps t ht hsteps
    obtain ⟨t', ht', rfl⟩ := frame?_eq_some.1 hs
    cases ht.symm.trans ht'
    have hp : t.parent = some p := hparent
    obtain ⟨above, habove, -, hdepth⟩ := hn.depth ht hp
    obtain ⟨k, rfl⟩ : ∃ k, steps = k + 1 := ⟨steps - 1, by omega⟩
    have hrest := ih habove (show above.depth < k by omega)
    rw [ancestorsWithin, ht]
    simp only [hp, List.filterMap_cons, ht]
    have hkind' : t.kind.bindsThis = false := hkind
    rw [ScopeTree.thisTypeIn]
    cases hk : t.kind with
    | block | arrow | «catch» => exact hrest
    | function | classBody | global =>
      rw [hk] at hkind'
      cases hkind'
  | @method id p s above hs hkind hparent habove hclass hgood =>
    intro steps t ht hsteps
    obtain ⟨t', ht', rfl⟩ := frame?_eq_some.1 hs
    cases ht.symm.trans ht'
    obtain ⟨u, hu, rfl⟩ := frame?_eq_some.1 habove
    have hp : t.parent = some p := hparent
    have hk : t.kind = .function := hkind
    have hku : u.kind = .classBody := hclass
    obtain ⟨above, habove, -, hdepth⟩ := hn.depth ht hp
    cases hu.symm.trans habove
    obtain ⟨k, rfl⟩ : ∃ k, steps = k + 2 := ⟨steps - 2, by omega⟩
    obtain ⟨rest, hrest⟩ : ∃ rest, tree.ancestorsWithin (k + 1) p = p :: rest := by
      rw [ancestorsWithin, hu]
      dsimp only
      split
      · exact ⟨_, rfl⟩
      · exact ⟨_, rfl⟩
    rw [ancestorsWithin, ht]
    simp only [hp, hrest, List.filterMap_cons, ht, hu, ScopeTree.thisTypeIn, hk, enclosingClass, hku]
    exact hgood

/-- **`this` is as it should be** in a scope for which that holds. -/
theorem HasThis.thisType (hn : tree.WellNested last) (h : tree.HasThis good id) (hs : tree.get? id = some s)
    (hdepth : s.depth < walkLimit) : good (tree.thisType id) := h.thisTypeIn hn hs hdepth

/-- A child that the search goes on to. -/
theorem scopeAtWithin_of_find? {steps : Nat} (hs : tree.get? id = some s)
    (hfind : s.children.reverse.find? (tree.covers offset) = some c) :
    tree.scopeAtWithin offset (steps + 1) id = tree.scopeAtWithin offset steps c := by
  have hfind' : ((tree.get? id).bind fun scope => scope.children.reverse.find? (tree.covers offset)) = some c := by
    rw [hs, Option.bind_some, hfind]
  rw [scopeAtWithin]
  split
  · rename_i child hchild
    cases hfind'.symm.trans hchild
    rfl
  · rename_i hnone
    cases hfind'.symm.trans hnone

/-- The search comes to where it is led, if it may go so deep. -/
theorem Leads.scopeAtWithin (hn : tree.WellNested last) (h : tree.Leads offset id f) :
    ∀ {s t}, tree.get? id = some s → tree.get? f = some t → s.depth ≤ t.depth ∧
      ∀ steps, t.depth ≤ s.depth + steps →
        ∃ rest, tree.scopeAtWithin offset steps id = tree.scopeAtWithin offset rest f := by
  induction h with
  | self id =>
    intro s t hs ht
    cases hs.symm.trans ht
    exact ⟨Nat.le_refl _, fun steps _ => ⟨steps, rfl⟩⟩
  | @down id c f s front back hs hchildren hlt hc hback _ ih =>
    intro s' t hs' ht
    obtain ⟨s'', hs'', rfl⟩ := frame?_eq_some.1 hs
    cases hs'.symm.trans hs''
    have hchildren' : s'.children = front ++ c :: back := hchildren
    obtain ⟨child, hchild, hparent⟩ := hn.listed id s' c hs' (by rw [hchildren']; simp)
    obtain ⟨above, habove, -, hdepth⟩ := hn.depth hchild hparent
    cases hs'.symm.trans habove
    obtain ⟨hle, hsteps⟩ := ih hchild ht
    refine ⟨by omega, fun steps hbound => ?_⟩
    obtain ⟨k, rfl⟩ : ∃ k, steps = k + 1 := ⟨steps - 1, by omega⟩
    have hfind : s'.children.reverse.find? (tree.covers offset) = some c := by
      have hnone : back.reverse.find? (tree.covers offset) = none := List.find?_eq_none.2 fun d hd => by
        rw [(hback d (List.mem_reverse.1 hd)).2.2]
        exact Bool.false_ne_true
      rw [hchildren', List.reverse_append, List.reverse_cons, List.append_assoc, List.find?_append, hnone,
        Option.none_or, List.singleton_append, List.find?_cons, hc]
    rw [scopeAtWithin_of_find? hs' hfind]
    exact hsteps k (by omega)

/-- Where no scope opened after the one that the search comes to has a `this` of its own around the
offset, `this` stays as it should be down to the end of the search. -/
theorem HasThis.scopeAtWithin (hn : tree.WellNested last)
    (hclear : ∀ id s, f < id → tree.frame? id = some s → s.contains offset = true → s.kind.bindsThis = false) :
    ∀ steps {id}, f ≤ id → tree.HasThis good id → tree.HasThis good (tree.scopeAtWithin offset steps id)
  | 0, _, _, h => h
  | steps + 1, id, hle, h => by
    rw [ScopeTree.scopeAtWithin]
    split
    · rename_i c hfind
      obtain ⟨s, hs, hfind⟩ := Option.bind_eq_some_iff.1 hfind
      have hcovers : tree.covers offset c = true := List.find?_some hfind
      obtain ⟨child, hchild, hparent⟩ :=
        hn.listed id s c hs (List.mem_reverse.1 (List.mem_of_find?_eq_some hfind))
      obtain ⟨-, -, hlt, -⟩ := hn.depth hchild hparent
      have hframe := frame?_of_get? hchild
      rw [covers_of_frame? hframe] at hcovers
      have hlater : f < c := Nat.lt_of_le_of_lt hle hlt
      exact HasThis.scopeAtWithin hn hclear steps (Nat.le_of_lt hlater)
        (.outer hframe (hclear c _ hlater hframe hcovers) hparent h)
    · exact h

/-- The search from the global scope ends where `this` is as it should be, once it comes to such a
scope and meets no function and no class below it. -/
theorem thisType_scopeAt (hn : tree.WellNested last) (hdepth : ∀ id s, tree.get? id = some s → s.depth < walkLimit)
    (hleads : tree.Leads offset root f) (hthis : tree.HasThis good f)
    (hclear : ∀ id s, f < id → tree.frame? id = some s → s.contains offset = true → s.kind.bindsThis = false) :
    good (tree.thisType (tree.scopeAt root offset)) := by
  have hget : ∀ {id}, tree.HasThis good id → ∃ s, tree.get? id = some s := fun h => by
    cases h with
    | outer hs | method hs =>
      obtain ⟨s, hs, -⟩ := frame?_eq_some.1 hs
      exact ⟨s, hs⟩
  obtain ⟨g, hg, -⟩ := hn.global
  obtain ⟨t, ht⟩ := hget hthis
  obtain ⟨rest, hrest⟩ := (hleads.scopeAtWithin hn hg ht).2 walkLimit
    (Nat.le_trans (Nat.le_of_lt (hdepth f t ht)) (Nat.le_add_left ..))
  have hfound : tree.HasThis good (tree.scopeAt root offset) := by
    rw [scopeAt, hrest]
    exact hthis.scopeAtWithin hn hclear rest (Nat.le_refl _)
  obtain ⟨s, hs⟩ := hget hfound
  exact hfound.thisType hn hs (hdepth _ s hs)

end ScopeTree
end Typeahead
