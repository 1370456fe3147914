/-
# Scopes inserted in a tree

One tree has the scopes of another and some more, which were all opened at one point. Where the
scopes of the two hold the same names, and no class body is among those inserted, the same is known
in a scope of one tree and in its counterpart in the other. One name of the global scope may have
two types, if neither is a class: then the same is known but for the type of that name.

Key definitions: `Insertion`, `Discord`, `Scope.Twin`, `ScopeTree.SameNames`, `ScopeTree.Spliced`.
Key theorems: `ScopeTree.Spliced.ancestors`, `ScopeTree.Spliced.resolveWithScope?`,
`ScopeTree.Spliced.parentClass?`, `ScopeTree.Spliced.environment`.
-/
import Mathlib.Data.List.Forall2
import Typeahead.Proofs.Hoisting.Agreement
import Typeahead.Proofs.Hoisting.Names

namespace Typeahead

/-- Some scopes that are inserted before the scope of an id, which is not the global one. -/
structure Insertion where
  place : Nat
  count : Nat
  behind_root : ScopeTree.root < place

/-- The id of a scope once the others are inserted. -/
def Insertion.shift (i : Insertion) (id : Nat) : Nat := if id < i.place then id else id + i.count

/-- A name that has two symbols, neither of which is a member or has the type of a class. -/
structure Discord where
  name : String
  here : Symbol
  there : Symbol
  noMember : here.kind.isMember = false ∧ there.kind.isMember = false
  noClass : ∀ info, here.type ≠ some (.class info) ∧ there.type ≠ some (.class info)

/-- Two scopes differ at most in their ids, in what they cover, and in their names. -/
structure Scope.Twin (i : Insertion) (s s' : Scope) : Prop where
  kind : s'.kind = s.kind
  parent : s'.parent = s.parent.map i.shift
  depth : s'.depth = s.depth
  classSymbol : s'.classSymbol = s.classSymbol
  isStatic : s'.isStatic = s.isStatic

namespace Insertion

variable (i : Insertion)

@[simp] theorem shift_root : i.shift ScopeTree.root = ScopeTree.root := if_pos i.behind_root

theorem shift_of_le {id : Nat} (h : i.place ≤ id) : i.shift id = id + i.count := if_neg (Nat.not_lt.2 h)

theorem shift_lt {a b : Nat} : i.shift a < i.shift b ↔ a < b := by
  rw [shift, shift]
  split <;> split <;> omega

theorem shift_inj {a b : Nat} : i.shift a = i.shift b ↔ a = b := by
  rw [shift, shift]
  split <;> split <;> omega

theorem shift_eq_root {id : ScopeId} : i.shift id = ScopeTree.root ↔ id = ScopeTree.root := by
  have h := i.shift_inj (a := id) (b := ScopeTree.root)
  rwa [shift_root] at h

end Insertion

namespace ScopeTree

/-- The scopes of one tree and their counterparts in another hold the same names, but for one name
of the global scope. -/
structure SameNames (i : Insertion) (discord : Option Discord) (tree tree' : ScopeTree) : Prop where
  symbol : ∀ id name, (id = root → ∀ d ∈ discord, d.name ≠ name) → tree'.symbol? (i.shift id) name =
    tree.symbol? id name
  discord : ∀ d ∈ discord, tree.symbol? root d.name = some d.here ∧ tree'.symbol? root d.name = some d.there

/-- The tree `tree'` has the scopes of `tree` with their names, and others that are inserted, none of
which is the body of a class. -/
structure Spliced (i : Insertion) (discord : Option Discord) (tree tree' : ScopeTree) : Prop
    extends SameNames i discord tree tree' where
  place : i.place ≤ tree.size
  size : tree'.size = tree.size + i.count
  frame : ∀ id s, tree.frame? id = some s → ∃ s', tree'.frame? (i.shift id) = some s' ∧ s.Twin i s'
  inserted : ∀ id s', tree'.frame? id = some s' → (∀ other, i.shift other ≠ id) → s'.kind ≠ .classBody

variable {i : Insertion} {discord : Option Discord} {tree tree' : ScopeTree} {id : ScopeId} {name : String}

namespace Spliced

variable (h : Spliced i discord tree tree')

include h

/-- The counterpart of a scope. -/
theorem scope (id : ScopeId) (s : Scope) (hs : tree.get? id = some s) :
    ∃ s', tree'.get? (i.shift id) = some s' ∧ s.Twin i s' := by
  obtain ⟨t, ht, htwin⟩ := h.frame id s.frame (frame?_of_get? hs)
  obtain ⟨s', hs', rfl⟩ := frame?_eq_some.1 ht
  exact ⟨s', hs', ⟨htwin.kind, htwin.parent, htwin.depth, htwin.classSymbol, htwin.isStatic⟩⟩

theorem get?_none (hid : tree.get? id = none) : tree'.get? (i.shift id) = none := by
  have hsize := get?_eq_none_iff.1 hid
  rw [get?_eq_none_iff, h.size, i.shift_of_le (Nat.le_trans h.place hsize)]
  omega

/-- The scopes around a scope are the counterparts of those around its own. -/
theorem ancestorsWithin (steps : Nat) :
    ∀ id, tree'.ancestorsWithin steps (i.shift id) = (tree.ancestorsWithin steps id).map i.shift := by
  induction steps with
  | zero => exact fun _ => rfl
  | succ steps ih =>
    intro id
    rw [ScopeTree.ancestorsWithin, ScopeTree.ancestorsWithin]
    cases hs : tree.get? id with
    | none => simp [h.get?_none hs]
    | some s =>
      obtain ⟨s', hs', htwin⟩ := h.scope id s hs
      simp only [hs', htwin.parent]
      cases s.parent with
      | none => rfl
      | some parent => exact congrArg (i.shift id :: ·) (ih parent)

theorem ancestors (id : ScopeId) : tree'.ancestors (i.shift id) = (tree.ancestors id).map i.shift :=
  h.ancestorsWithin walkLimit id

/-! ### Names -/

/-- A scope binds a name in both trees alike, unless it is the one with two symbols. -/
theorem ownBinding? (id : ScopeId) (name : String) :
    tree'.ownBinding? (i.shift id) name = tree.ownBinding? id name ∨
      ∃ d ∈ discord, d.name = name ∧ id = root ∧ tree.ownBinding? id name = some d.here ∧
        tree'.ownBinding? (i.shift id) name = some d.there := by
  by_cases hd : id = root → ∀ d ∈ discord, d.name ≠ name
  · exact .inl (by rw [ScopeTree.ownBinding?, ScopeTree.ownBinding?, h.symbol id name hd])
  · simp only [Classical.not_imp, not_forall, not_not] at hd
    obtain ⟨rfl, d, hd, rfl⟩ := hd
    obtain ⟨hhere, hthere⟩ := h.discord d hd
    refine .inr ⟨d, hd, rfl, rfl, ?_, ?_⟩
    · simp [ScopeTree.ownBinding?, hhere, d.noMember]
    · simp [ScopeTree.ownBinding?, hthere, d.noMember]

/-- **A name is resolved in both trees alike**, unless it is the one with two symbols. -/
theorem resolveWithScope? (id : ScopeId) (name : String) :
    tree'.resolveWithScope? (i.shift id) name = (tree.resolveWithScope? id name).map (Prod.map i.shift (·)) ∨
      ∃ d ∈ discord, d.name = name ∧ tree.resolveWithScope? id name = some (root, d.here) ∧
        tree'.resolveWithScope? (i.shift id) name = some (root, d.there) := by
  rw [ScopeTree.resolveWithScope?, ScopeTree.resolveWithScope?, h.ancestors]
  induction tree.ancestors id with
  | nil => exact .inl rfl
  | cons owner rest ih =>
    simp only [List.map_cons, List.findSome?_cons]
    rcases h.ownBinding? owner name with hown | ⟨d, hd, hname, rfl, hhere, hthere⟩
    · rw [hown]
      cases tree.ownBinding? owner name with
      | none => exact ih
      | some symbol => exact .inl rfl
    · rw [hhere, hthere]
      exact .inr ⟨d, hd, hname, rfl, congrArg (fun id => some (id, d.there)) i.shift_root⟩

/-- A name is bound in both trees alike, unless it is the one with two symbols. -/
theorem resolve? (id : ScopeId) (name : String) :
    tree'.resolve? (i.shift id) name = tree.resolve? id name ∨
      ∃ d ∈ discord, d.name = name ∧ tree.resolve? id name = some d.here ∧ tree'.resolve? (i.shift id) name =
        some d.there := by
  rw [ScopeTree.resolve?, ScopeTree.resolve?]
  rcases h.resolveWithScope? id name with heq | ⟨d, hd, hname, hhere, hthere⟩
  · rw [heq]
    exact .inl (by cases tree.resolveWithScope? id name <;> rfl)
  · rw [hhere, hthere]
    exact .inr ⟨d, hd, hname, rfl, rfl⟩

/-! ### Classes -/

/-- The first class of a name is the same in both trees, since no class is inserted. -/
theorem classScope? (name : String) : tree'.classScope? name = (tree.classScope? name).map i.shift := by
  let named (s : Scope) : Bool := s.kind = .classBody && (s.classSymbol.map (·.name)) == some name
  have hspec : ∀ (t : ScopeTree) (id : ScopeId), t.classScope? name = some id ↔
      (∃ s, t.get? id = some s ∧ named s = true) ∧ ∀ other < id, ∀ s, t.get? other = some s → named s = false := by
    intro t id
    rw [ScopeTree.classScope?, Array.findIdx?_eq_some_iff_getElem]
    constructor
    · rintro ⟨hid, hnamed, hbefore⟩
      refine ⟨⟨_, Array.getElem?_eq_getElem hid, hnamed⟩, fun other hother s hs => ?_⟩
      obtain ⟨hlt, rfl⟩ := Array.getElem?_eq_some_iff.1 hs
      exact Bool.eq_false_iff.2 (hbefore other hother)
    · rintro ⟨⟨s, hs, hnamed⟩, hbefore⟩
      obtain ⟨hid, rfl⟩ := Array.getElem?_eq_some_iff.1 hs
      exact ⟨hid, hnamed, fun other hother =>
        Bool.eq_false_iff.1 (hbefore other hother _ (Array.getElem?_eq_getElem (Nat.lt_trans hother hid)))⟩
  have hsame : ∀ {s s'}, Scope.Twin i s s' → named s' = named s := fun htwin => by
    simp only [named, htwin.kind, htwin.classSymbol]
  -- what is no counterpart is no class
  have hback : ∀ id s', tree'.get? id = some s' → named s' = true →
      ∃ other s, i.shift other = id ∧ tree.get? other = some s ∧ named s = true := by
    intro id s' hs' hnamed
    by_cases hcounterpart : ∃ other, i.shift other = id
    · obtain ⟨other, rfl⟩ := hcounterpart
      cases hs : tree.get? other with
      | none => cases (h.get?_none hs).symm.trans hs'
      | some s =>
        obtain ⟨t, ht, htwin⟩ := h.scope other s hs
        cases ht.symm.trans hs'
        exact ⟨other, s, rfl, hs, (hsame htwin).symm.trans hnamed⟩
    · have hkind : s'.kind ≠ .classBody := h.inserted id s'.frame (frame?_of_get? hs') (not_exists.1 hcounterpart)
      simp [named, hkind] at hnamed
  have hforth : ∀ {id}, tree.classScope? name = some id → tree'.classScope? name = some (i.shift id) := by
    intro id hid
    obtain ⟨⟨s, hs, hnamed⟩, hbefore⟩ := (hspec tree id).1 hid
    obtain ⟨s', hs', htwin⟩ := h.scope id s hs
    refine (hspec tree' _).2 ⟨⟨s', hs', (hsame htwin).trans hnamed⟩, fun other hother t ht => ?_⟩
    by_contra hnot
    obtain ⟨before, r, rfl, hr, hrnamed⟩ := hback other t ht (by simpa using hnot)
    simp [hbefore before (i.shift_lt.1 hother) r hr] at hrnamed
  cases hclass : tree.classScope? name with
  | some id => exact hforth hclass
  | none =>
    cases hclass' : tree'.classScope? name with
    | none => rfl
    | some id =>
      obtain ⟨⟨s', hs', hnamed⟩, -⟩ := (hspec tree' id).1 hclass'
      obtain ⟨other, s, -, hs, hsnamed⟩ := hback id s' hs' hnamed
      rw [ScopeTree.classScope?, Array.findIdx?_eq_none_iff] at hclass
      obtain ⟨hlt, rfl⟩ := Array.getElem?_eq_some_iff.1 hs
      cases (hclass _ (Array.getElem_mem hlt)).symm.trans hsnamed

/-- A class extends the same class in both trees. -/
theorem parentClass? (id : ScopeId) (info : ClassInfo Ty) :
    tree'.parentClass? (i.shift id) info = tree.parentClass? id info := by
  rw [ScopeTree.parentClass?, ScopeTree.parentClass?]
  cases info.parent with
  | none => rfl
  | some name =>
    have hclass : ((tree'.classScope? name).bind tree'.get? |>.bind (·.classSymbol)) =
        ((tree.classScope? name).bind tree.get? |>.bind (·.classSymbol)) := by
      rw [h.classScope?]
      cases tree.classScope? name with
      | none => rfl
      | some found =>
        simp only [Option.map_some, Option.bind_some]
        cases hs : tree.get? found with
        | none => rw [h.get?_none hs]
        | some s =>
          obtain ⟨s', hs', htwin⟩ := h.scope found s hs
          rw [hs', Option.bind_some, Option.bind_some, htwin.classSymbol]
    rcases h.resolve? id name with heq | ⟨d, -, -, hhere, hthere⟩
    · simp only [Option.bind_eq_bind, Option.bind_some, heq, hclass]
    · -- neither of the two symbols is a class
      simp only [Option.bind_eq_bind, Option.bind_some, hhere, hthere]
      split
      · rename_i c heq
        exact absurd heq (d.noClass c).2
      · split
        · rename_i c heq
          exact absurd heq (d.noClass c).1
        · rfl

theorem lineageWithin (id : ScopeId) : ∀ (steps : Nat) (info : ClassInfo Ty),
    tree'.lineageWithin (i.shift id) steps info = tree.lineageWithin id steps info
  | 0, _ => rfl
  | steps + 1, info => by
    rw [ScopeTree.lineageWithin, ScopeTree.lineageWithin, h.parentClass?]
    cases tree.parentClass? id info with
    | none => rfl
    | some parent => simp only [lineageWithin id steps parent]

/-- A type has the same members in both trees. -/
theorem lookup? (id : ScopeId) (type : Ty) (name : String) :
    tree'.lookup? (i.shift id) type name = tree.lookup? id type name := by
  have hinherited : ∀ info, tree'.inherited? (i.shift id) info name = tree.inherited? id info name := fun info => by
    rw [ScopeTree.inherited?, ScopeTree.lineage, h.lineageWithin, ScopeTree.inherited?, ScopeTree.lineage]
  unfold ScopeTree.lookup?
  split
  · rfl
  · exact hinherited _
  · rfl

/-! ### What is known in a scope -/

/-- `this` has the same type in both trees. -/
theorem thisType (id : ScopeId) : tree'.thisType (i.shift id) = tree.thisType id := by
  have htwins : ∀ l : List ScopeId,
    List.Forall₂ (Scope.Twin i) (l.filterMap tree.get?) ((l.map i.shift).filterMap tree'.get?) := by
    intro l
    induction l with
    | nil => exact .nil
    | cons a rest ih =>
      rw [List.map_cons, List.filterMap_cons, List.filterMap_cons]
      cases hs : tree.get? a with
      | none => simpa [h.get?_none hs] using ih
      | some s =>
        obtain ⟨s', hs', htwin⟩ := h.scope a s hs
        simpa [hs', htwin] using ih
  have hside : ∀ {s s'} side, Scope.Twin i s s' → classOnSide s' side = classOnSide s side := fun side htwin => by
    rw [classOnSide, classOnSide, htwin.classSymbol]
  have hclass : ∀ {l l'} side, List.Forall₂ (Scope.Twin i) l l' → enclosingClass side l' = enclosingClass side l := by
    intro l l' side hl
    induction hl with
    | nil => rfl
    | cons htwin _ ih => rw [enclosingClass, enclosingClass, htwin.kind, hside side htwin, ih]
  have hthis : ∀ {l l'}, List.Forall₂ (Scope.Twin i) l l' → thisTypeIn l' = thisTypeIn l := by
    intro l l' hl
    induction hl with
    | nil => rfl
    | cons htwin htail ih => simp only [thisTypeIn, htwin.kind, htwin.isStatic, hside _ htwin, hclass _ htail, ih]
  rw [ScopeTree.thisType, h.ancestors, ScopeTree.thisType]
  exact hthis (htwins _)

theorem typeOf? (id : ScopeId) {name : String} (hname : name ∉ discord.map (·.name)) :
    tree'.typeOf? (i.shift id) name = tree.typeOf? id name := by
  rcases h.resolve? id name with heq | ⟨d, hd, rfl, -⟩
  · rw [ScopeTree.typeOf?, ScopeTree.typeOf?, heq]
  · exact absurd (Option.mem_map_of_mem _ hd) hname

/-- What `new` makes of a name is the same in both trees. -/
theorem constructed (id : ScopeId) (name : String) :
    TypeEnvironment.constructed (tree'.typeOf? (i.shift id) name) name =
      TypeEnvironment.constructed (tree.typeOf? id name) name := by
  rcases h.resolve? id name with heq | ⟨d, -, -, hhere, hthere⟩
  · rw [ScopeTree.typeOf?, ScopeTree.typeOf?, heq]
  · have hplain : ∀ {symbol : Symbol}, (∀ info, symbol.type ≠ some (.class info)) →
        TypeEnvironment.constructed (some symbol.typeOrUnknown) name = (Catalog.constructed? name).getD .unknown := by
      intro symbol hne
      rw [TypeEnvironment.constructed]
      intro info heq
      rw [Symbol.typeOrUnknown] at heq
      cases htype : symbol.type with
      | none => simp [htype] at heq
      | some type =>
        simp only [htype, Option.getD_some, Option.some.injEq] at heq
        exact hne info (heq ▸ htype)
    simp only [ScopeTree.typeOf?, hhere, hthere, hplain fun info => (d.noClass info).1,
      hplain fun info => (d.noClass info).2]

/-- **The same is known in a scope and in its counterpart**, but for the type of the name that has
two symbols. -/
theorem environment (id : ScopeId) :
    (tree.environment id).AgreeBut (discord.map (·.name)) (tree'.environment (i.shift id)) where
  typeOf? _ hname := h.typeOf? id hname
  thisType := h.thisType id
  memberType? := funext fun object => funext fun name => congrArg (Option.map Member.type) (h.lookup? id object name)
  construct := funext fun name => h.constructed id name

/-- The type of an expression in a scope and in its counterpart. -/
theorem evaluate {f g : Nat → Nat} (id : ScopeId) {n : Node} (hn : n.Avoids (discord.map (·.name))) :
    tree'.evaluate (i.shift id) (n.relocate g) = tree.evaluate id (n.relocate f) :=
      blind_typeIn (h.environment id) n hn

end Spliced

end ScopeTree
end Typeahead
