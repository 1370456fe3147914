/-
# What a class answers is offered

A name that a class answers, from its own members or from what it inherits, is offered for the class
exactly once. Both walks follow the same line of classes, however it goes on: it may come back to
a class, be cut at its limit, or end in a built-in type or in a name of which nothing is known. A
constructor is answered from the members of functions at every class of the line and is offered them
once, behind the line.

Key theorems: `ScopeTree.firstNamed?_of_lookup?`, `ScopeTree.count_label_offered`.
-/
import Mathlib.Data.List.Nodup
import Typeahead.Proofs.Completion.Labels

namespace Typeahead

open OfferedMember

/-- A built-in type answers from its own table, or as a plain object does if it has none. -/
theorem lookup?_named (type name : String) :
    (Ty.named type).lookup? name =
      Member.inCatalog? (if (Catalog.members? type).isSome then type else "Object") none name := by
  simp only [Ty.named, Ty.lookup?, Ty.catalogName?, Option.bind_some]
  split
  · next listed htype =>
    rw [htype, Option.isSome_some, if_pos rfl]
    rfl
  · next htype => rw [htype, Option.isSome_none, if_neg Bool.false_ne_true]

/-- A built-in type lists what it answers. -/
theorem firstNamed?_named (type name : String) :
    firstNamed? (Ty.named type).members name = (Ty.named type).lookup? name := by
  rw [lookup?_named]
  change firstNamed? (((Catalog.members? type).getD ((Catalog.members? "Object").getD [])).map (.ofBuiltIn none)) name = _
  cases htype : Catalog.members? type with
  | some listed => rw [Option.isSome_some, if_pos rfl, ← find?_listed, htype, Option.getD_some, Option.getD_some]
  | none => rw [Option.getD_none, find?_listed, Option.isSome_none, if_neg Bool.false_ne_true]

theorem firstNamed?_function (name : String) :
    firstNamed? (Ty.named "Function").members name = Member.inCatalog? "Function" none name := by
  rw [firstNamed?_named, lookup?_named, if_pos (by decide)]

/-- What a class answers by itself is among its members, or among those of functions if it is a constructor. -/
theorem isSome_of_lookup?_class {info : ClassInfo Ty} {name : String} (h : ((Ty.class info).lookup? name).isSome) :
    (firstNamed? (Ty.class info).members name).isSome ∨
      info.side = .constructorSide ∧ (firstNamed? (Ty.named "Function").members name).isSome := by
  rw [lookup?_class, Option.isSome_or, Bool.or_eq_true] at h
  refine h.imp id fun h => ?_
  cases hside : info.side with
  | instanceSide =>
    rw [hside] at h
    cases h
  | constructorSide =>
    rw [hside] at h
    exact ⟨rfl, firstNamed?_function name ▸ h⟩

namespace ScopeTree

variable {tree : ScopeTree} {info : ClassInfo Ty} {name : String}

/-- What a class inherits is among the members of its line, or among those of functions if it is a
constructor, or among those of the built-in type that the line ends in. -/
theorem isSome_of_inherited? (h : (tree.inherited? root info name).isSome) :
    (firstNamed? (tree.inheritedMembers info) name).isSome ∨
      (info.side = .constructorSide ∧ (firstNamed? (Ty.named "Function").members name).isSome) ∨
      (info.side = .instanceSide ∧ ∃ type, (tree.lineage root info).last = some type ∧
        (firstNamed? (Ty.named type).members name).isSome) := by
  rw [inherited?] at h
  split at h
  · next found hfound =>
    obtain ⟨c, hc, hlookup⟩ := List.exists_of_findSome?_eq_some hfound
    have hside := side_of_mem_lineage _ _ c hc
    rcases isSome_of_lookup?_class (Option.isSome_of_mem hlookup) with hmember | ⟨hconstructor, hfunction⟩
    · left
      rw [inheritedMembers, firstNamed?_flatMap, List.findSome?_isSome_iff]
      exact ⟨c, hc, hmember⟩
    · exact .inr (.inl ⟨hside ▸ hconstructor, hfunction⟩)
  · next type _ hinstance hlast =>
    exact .inr (.inr ⟨hinstance, type, hlast, firstNamed?_named type name ▸ h⟩)
  · cases h

/-- **Every name that a class answers is among what is offered for it.** -/
theorem exists_label_classOffered (h : (tree.lookup? root (.class info) name).isSome) :
    ∃ o ∈ tree.classOffered info, o.label = name := by
  have hcases : (firstNamed? (Ty.class info).members name).isSome ∨
      (firstNamed? (tree.inheritedMembers info) name).isSome ∨
      (info.side = .constructorSide ∧ (firstNamed? (Ty.named "Function").members name).isSome) ∨
      (info.side = .instanceSide ∧ ∃ type, (tree.lineage root info).last = some type ∧
        (firstNamed? (Ty.named type).members name).isSome) := by
    cases hown : (Ty.class info).lookup? name with
    | some m =>
      rcases isSome_of_lookup?_class (Option.isSome_of_mem hown) with hmember | hfunction
      · exact .inl hmember
      · exact .inr (.inr (.inl hfunction))
    | none => exact .inr (isSome_of_inherited? (lookup?_of_not_own hown ▸ h))
  have hfind : ((tree.classOffered info).find? (·.label = name)).isSome := by
    rw [inheritedMembers] at hcases
    cases hside : info.side with
    | instanceSide =>
      simp only [classOffered, hside, List.find?_append, find?_map_known, firstNamed?_append, Option.isSome_or,
        Option.isSome_map, Bool.or_eq_true]
      rcases hcases with h | h | ⟨h, -⟩ | ⟨-, type, hlast, h⟩
      · exact .inl (.inl h)
      · exact .inr (.inl h)
      · exact absurd (hside.symm.trans h) (by decide)
      · rw [hlast]
        exact .inr (.inr h)
    | constructorSide =>
      simp only [classOffered, hside, List.find?_append, find?_map_known, firstNamed?_append, Option.isSome_or,
        Option.isSome_map, Bool.or_eq_true]
      rcases hcases with h | h | ⟨-, h⟩ | ⟨h, -⟩
      · exact .inl h
      · exact .inr (.inl h)
      · exact .inr (.inr h)
      · exact absurd (hside.symm.trans h) (by decide)
  obtain ⟨o, ho, hlabel⟩ := List.find?_isSome.1 hfind
  exact ⟨o, ho, by simpa using hlabel⟩

/-- **The members offered for a class are complete**: of every name that the class answers, its own
or inherited, there is exactly one. -/
theorem count_label_offered {m : Member} (h : tree.lookup? root (.class info) name = some m) :
    ((tree.offered (.class info)).map (·.label)).count name = 1 := by
  have hperm : ((tree.offered (.class info)).map (·.label)).Perm
      ((distinct (tree.classOffered info)).map (·.label)) := (List.mergeSort_perm _ _).map _
  have hmem : name ∈ (distinct (tree.classOffered info)).map (·.label) := by
    obtain ⟨o, ho, hlabel⟩ := (exists_label_distinct _ name).2 (exists_label_classOffered (Option.isSome_of_mem h))
    exact List.mem_map.2 ⟨o, ho, hlabel⟩
  rw [hperm.count_eq]
  exact List.count_eq_one_of_mem (nodup_distinct _) hmem

/-- A member that is inherited along a line of classes that comes back to its start. -/
theorem count_label_offered_cyclic :
    let tree := (bindText {} "class A extends B { x = 1 } class B extends A { m() { return 1 } }".toList).tree
    let info : ClassInfo Ty := ⟨"A", [], some "B", .instanceSide⟩
    (tree.lookup? root (.class info) "m").isSome ∧ ((tree.offered (.class info)).map (·.label)).count "m" = 1 := by
  intro tree info
  have hfound : (tree.lookup? root (.class info) "m").isSome := by decide +kernel
  obtain ⟨m, hm⟩ := Option.isSome_iff_exists.1 hfound
  exact ⟨hfound, count_label_offered hm⟩

end ScopeTree
end Typeahead
