/-
# Offered members have the types they are shown with

What is offered for a type and what a name in it is resolved to are two walks over the same
lists: the members of the type, of the classes it inherits from, and of built-in types. Both
take the first member of a name. They part in three places, and nowhere else: what `call`
and `apply` of a function return, the order in which a constructor looks at what it
inherits and at the members of functions, and the symbols in the scope of a class that are
no members of an instance.

Key definitions: `firstNamed?`, `ScopeTree.Resolves`.
Key theorems: `ScopeTree.find?_of_mem_offered`, `lookup?_class`, `Document.memberType_membersAt`.
-/
import Mathlib.Tactic.Common
import Mathlib.Data.List.Basic
import Mathlib.Data.List.Induction
import Typeahead.Document

namespace Typeahead

/-- The first member of a name. -/
def firstNamed? (members : List Member) (name : String) : Option Member := members.find? (·.name = name)

/-! ### Distinct names -/

namespace OfferedMember

theorem distinct_concat (l : List OfferedMember) (o : OfferedMember) :
    distinct (l ++ [o]) = if (distinct l).any (·.label == o.label) then distinct l else distinct l ++ [o] := by
  rw [distinct, List.foldl_append]
  rfl

theorem exists_label_distinct (l : List OfferedMember) (name : String) :
    (∃ o ∈ distinct l, o.label = name) ↔ ∃ o ∈ l, o.label = name := by
  induction l using List.reverseRecOn with
  | nil => rfl
  | append_singleton l o ih =>
    rw [distinct_concat]
    split
    · rename_i h
      simp only [List.any_eq_true, beq_iff_eq] at h
      rw [ih]
      constructor
      · rintro ⟨p, hp, h⟩
        exact ⟨p, List.mem_append_left _ hp, h⟩
      · rintro ⟨p, hp, hname⟩
        rcases List.mem_append.1 hp with hp | hp
        · exact ⟨p, hp, hname⟩
        · rw [List.mem_singleton.1 hp] at hname
          rw [hname] at h
          exact ih.1 h
    · simp only [List.mem_append, or_and_right, exists_or, ih]

/-- Of each name the first member is kept. -/
theorem find?_of_mem_distinct {l : List OfferedMember} {o : OfferedMember} (h : o ∈ distinct l) :
    l.find? (·.label = o.label) = some o := by
  induction l using List.reverseRecOn with
  | nil => cases h
  | append_singleton l p ih =>
    rw [distinct_concat] at h
    rw [List.find?_append]
    split at h
    · rw [ih h]
      rfl
    · rename_i hnone
      rcases List.mem_append.1 h with h | h
      · rw [ih h]
        rfl
      · have hp := List.mem_singleton.1 h
        subst hp
        have hfind : l.find? (·.label = o.label) = none := by
          refine List.find?_eq_none.2 fun p hp hlabel => hnone ?_
          obtain ⟨q, hq, hname⟩ := (exists_label_distinct l o.label).2 ⟨p, hp, by simpa using hlabel⟩
          exact List.any_eq_true.2 ⟨q, hq, by simpa using hname⟩
        rw [hfind]
        simp

end OfferedMember

open OfferedMember

theorem find?_map_known (order : Nat) (members : List Member) (name : String) :
    (members.map (known order)).find? (·.label = name) = (firstNamed? members name).map (known order) := by
  rw [List.find?_map]
  rfl

namespace ScopeTree

variable {tree : ScopeTree}

/-- What is offered under a name is the first candidate of it. -/
theorem find?_of_mem_offered {ty : Ty} {o : OfferedMember} (h : o ∈ tree.offered ty) :
    (tree.candidates ty).find? (·.label = o.label) = some o :=
  find?_of_mem_distinct (List.mem_mergeSort.1 h)

end ScopeTree

/-! ### Own members -/

theorem find?_listed (catalog name : String) (element : Option Ty) :
    firstNamed? (((Catalog.members? catalog).getD []).map (.ofBuiltIn element)) name =
      Member.inCatalog? catalog element name := by
  rw [firstNamed?, List.find?_map, Member.inCatalog?, Catalog.member?]
  cases Catalog.members? catalog <;> rfl

theorem ofEntry_name (name : String) (value : Ty) : (Member.ofEntry name value).name = name := by
  cases value <;> rfl

theorem find?_entries (name : String) : ∀ entries : Entries Ty,
    firstNamed? (entries.map fun entry => .ofEntry entry.1 entry.2) name =
      (entries.get? name).map (.ofEntry name)
  | [] => rfl
  | (key, value) :: entries => by
    rw [firstNamed?, List.map_cons, List.find?_cons, ofEntry_name, Entries.get?]
    by_cases h : key = name
    · simp [h]
    · rw [if_neg h, decide_eq_false h]
      exact find?_entries name entries

/-- The members of a built-in type, or of all objects where it is not listed. -/
theorem lookup?_catalog {catalog name : String} {element : Option Ty} {m : Member}
    (hlisted : element = none ∨ (Catalog.members? catalog).isSome)
    (h : firstNamed? (((Catalog.members? catalog).getD ((Catalog.members? "Object").getD [])).map
      (.ofBuiltIn element)) name = some m) :
    (match Catalog.members? catalog with
      | some _ => Member.inCatalog? catalog element name
      | none => Member.inCatalog? "Object" none name) = some m := by
  cases hc : Catalog.members? catalog with
  | some members =>
    rw [hc] at h
    simp only
    rw [← find?_listed, hc]
    exact h
  | none =>
    have helement : element = none := by simpa [hc] using hlisted
    rw [hc, helement] at h
    exact (find?_listed "Object" name none).symm.trans h

/-- The members that a type lists by itself are what it answers. A class is asked for more. -/
theorem lookup?_of_members {ty : Ty} {name : String} {m : Member} (hclass : ty.class? = none)
    (h : firstNamed? ty.members name = some m) : ty.lookup? name = some m := by
  cases ty with
  | unknown => cases h
  | «class» => cases hclass
  | primitive kind =>
    cases kind with
    | null => cases h
    | undefined => cases h
    | _ => exact lookup?_catalog (.inl rfl) h
  | array element => exact lookup?_catalog (.inr (by decide)) h
  | function name params result => exact lookup?_catalog (.inl rfl) h
  | object named shape =>
    cases shape with
    | none => cases named <;> exact lookup?_catalog (.inl rfl) h
    | some entries =>
      rw [Ty.members, find?_entries, Option.map_eq_some_iff] at h
      obtain ⟨value, hvalue, rfl⟩ := h
      rw [Ty.lookup?, hvalue]

/-! ### Classes -/

theorem firstNamed?_append (a b : List Member) (name : String) :
    firstNamed? (a ++ b) name = (firstNamed? a name).or (firstNamed? b name) := List.find?_append

theorem find?_sideMembers (info : ClassInfo Ty) (name : String) :
    (info.sideMembers.find? (·.name = name)).map .ofClassMember = firstNamed? (Ty.class info).members name := by
  rw [firstNamed?, Ty.members, List.find?_map]
  rfl

/-- A class answers a name from its own members, and a constructor from those of functions besides. -/
theorem lookup?_class (info : ClassInfo Ty) (name : String) :
    (Ty.class info).lookup? name = (firstNamed? (Ty.class info).members name).or
      (match info.side with
        | .constructorSide => Member.inCatalog? "Function" none name
        | .instanceSide => none) := by
  rw [← find?_sideMembers, Ty.lookup?]
  cases info.sideMembers.find? (·.name = name) with
  | some m => rfl
  | none => cases info.side <;> rfl

theorem firstNamed?_flatMap (name : String) : ∀ classes : List (ClassInfo Ty),
    firstNamed? (classes.flatMap fun c => (Ty.class c).members) name =
      classes.findSome? fun c => firstNamed? (Ty.class c).members name
  | [] => rfl
  | c :: classes => by
    rw [List.flatMap_cons, firstNamed?_append, firstNamed?_flatMap name classes, List.findSome?_cons]
    cases firstNamed? (Ty.class c).members name <;> rfl

namespace ScopeTree

variable {tree : ScopeTree}

theorem side_of_parentClass? {id : ScopeId} {info parent : ClassInfo Ty} (h : tree.parentClass? id info = some parent) :
    parent.side = info.side := by
  simp only [parentClass?, Option.bind_eq_bind] at h
  obtain ⟨name, -, h⟩ := Option.bind_eq_some_iff.1 h
  split at h
  all_goals
    obtain ⟨symbol, -, h⟩ := Option.bind_eq_some_iff.1 h
    split at h
    · cases h
      rfl
    · cases h

/-- What a class extends is seen from the side of the class. -/
theorem side_of_mem_lineage {id : ScopeId} : ∀ (steps : Nat) (info : ClassInfo Ty),
    ∀ c ∈ (tree.lineageWithin id steps info).classes, c.side = info.side
  | 0, _, c, hc => by cases hc
  | steps + 1, info, c, hc => by
    rw [lineageWithin] at hc
    split at hc
    · cases hc
    · rename_i parent hparent
      have hside := side_of_parentClass? hparent
      rcases List.mem_cons.1 hc with rfl | hc
      · exact hside
      · exact (side_of_mem_lineage steps parent c hc).trans hside

/-- The members of the classes that a class extends, the nearest first. -/
def inheritedMembers (tree : ScopeTree) (info : ClassInfo Ty) : List Member :=
  (tree.lineage root info).classes.flatMap fun c => (Ty.class c).members

/-- What a class inherits from other classes is their first member of the name, unless a constructor
finds the name among the members of functions. -/
theorem findSome?_lineage {info : ClassInfo Ty} {name : String}
    (h : info.side = .constructorSide → Member.inCatalog? "Function" none name = none) :
    ((tree.lineage root info).classes.findSome? fun c => (Ty.class c).lookup? name) =
      firstNamed? (tree.inheritedMembers info) name := by
  have hlookup : ∀ c ∈ (tree.lineage root info).classes,
      (Ty.class c).lookup? name = firstNamed? (Ty.class c).members name := by
    intro c hc
    have hside := side_of_mem_lineage _ _ c hc
    rw [lookup?_class]
    cases hinfo : info.side with
    | instanceSide => rw [hside, hinfo, Option.or_none]
    | constructorSide => rw [hside, hinfo, h hinfo, Option.or_none]
  rw [inheritedMembers, firstNamed?_flatMap, ← List.head?_filterMap, ← List.head?_filterMap,
    List.filterMap_congr hlookup]

/-- A name of a type is resolved to what is offered under it, where the two walks agree: they do not
for what `call` and `apply` of a function return, for an inherited static member that has the name
of a member of functions, and for a symbol in the scope of a class that is no member of its
instances. -/
def Resolves (tree : ScopeTree) (ty : Ty) (name : String) : Prop :=
  match ty with
  | .function .. => name ≠ "call" ∧ name ≠ "apply"
  | .class info => firstNamed? (Ty.class info).members name ≠ none ∨
      if info.side = .instanceSide then firstNamed? (tree.classScopeMembers info) name = none
      else Member.inCatalog? "Function" none name = none ∨ firstNamed? (tree.inheritedMembers info) name = none
  | _ => True

instance decidableResolves (tree : ScopeTree) (name : String) : ∀ ty : Ty, Decidable (tree.Resolves ty name)
  | .function .. => instDecidableAnd
  | .class _ => instDecidableOr
  | .unknown | .primitive _ | .array _ | .object .. => isTrue trivial

theorem lookup?_of_lookup? {id : ScopeId} {ty : Ty} {name : String} {m : Member} (h : ty.lookup? name = some m) :
    tree.lookup? id ty name = some m := by
  simp only [lookup?, h]

theorem lookup?_of_not_own {id : ScopeId} {info : ClassInfo Ty} {name : String}
    (h : (Ty.class info).lookup? name = none) :
    tree.lookup? id (.class info) name = tree.inherited? id info name := by
  simp only [lookup?, h]

theorem firstNamed?_builtIn {last : Option String} {name : String} {m : Member}
    (h : firstNamed? ((last.map fun name => (Ty.named name).members).getD []) name = some m) :
    ∃ builtIn, last = some builtIn ∧ (Ty.named builtIn).lookup? name = some m := by
  cases last with
  | none => cases h
  | some builtIn => exact ⟨builtIn, rfl, lookup?_of_members rfl h⟩

/-- What is offered under a name of an instance is what the instance answers. -/
theorem lookup?_of_instanceOffered {info : ClassInfo Ty} {name : String} {o : OfferedMember}
    (hside : info.side = .instanceSide) (h : (tree.classOffered info).find? (·.label = name) = some o)
    (hresolves : tree.Resolves (.class info) name) : tree.lookup? root (.class info) name = some o.member := by
  have hown := lookup?_class info name
  simp only [hside, Option.or_none] at hown
  simp only [classOffered, hside, List.find?_append, find?_map_known, firstNamed?_append] at h
  cases hfirst : firstNamed? (Ty.class info).members name with
  | some m =>
    simp only [hfirst, Option.some_or, Option.map_some, Option.some.injEq] at h
    rw [lookup?_of_lookup? (hown.trans hfirst), ← h]
    rfl
  | none =>
    have hscope : firstNamed? (tree.classScopeMembers info) name = none := by
      simpa [Resolves, hfirst, hside] using hresolves
    simp only [hfirst, hscope, Option.none_or, Option.map_none, Option.map_eq_some_iff] at h
    obtain ⟨m, hm, rfl⟩ := h
    rw [lookup?_of_not_own (hown.trans hfirst)]
    have hline : ((tree.lineage root info).classes.findSome? fun c => (Ty.class c).lookup? name) =
        firstNamed? (tree.inheritedMembers info) name := findSome?_lineage (by simp [hside])
    rw [inheritedMembers] at hline
    simp only [inherited?, hline, hside]
    cases hinherited : firstNamed? ((tree.lineage root info).classes.flatMap fun c => (Ty.class c).members) name with
    | some m' =>
      rw [hinherited] at hm
      cases hm
      rfl
    | none =>
      rw [hinherited, Option.none_or] at hm
      obtain ⟨builtIn, hlast, hlookup⟩ := firstNamed?_builtIn hm
      simp only [hlast, hlookup]
      rfl

/-- What is offered under a name of a constructor is what the constructor answers. -/
theorem lookup?_of_constructorOffered {info : ClassInfo Ty} {name : String} {o : OfferedMember}
    (hside : info.side = .constructorSide) (h : (tree.classOffered info).find? (·.label = name) = some o)
    (hresolves : tree.Resolves (.class info) name) : tree.lookup? root (.class info) name = some o.member := by
  have hown := lookup?_class info name
  simp only [hside] at hown
  simp only [classOffered, hside, List.find?_append, find?_map_known, firstNamed?_append] at h
  cases hfirst : firstNamed? (Ty.class info).members name with
  | some m =>
    simp only [hfirst, Option.some_or, Option.map_some, Option.some.injEq] at h
    rw [hfirst, Option.some_or] at hown
    rw [lookup?_of_lookup? hown, ← h]
    rfl
  | none =>
    have hor : Member.inCatalog? "Function" none name = none ∨ firstNamed? (tree.inheritedMembers info) name = none := by
      simpa [Resolves, hfirst, hside] using hresolves
    have hfunction : firstNamed? (Ty.named "Function").members name = Member.inCatalog? "Function" none name := by
      obtain ⟨listed, hlisted⟩ := Option.isSome_iff_exists.1 (by decide : (Catalog.members? "Function").isSome)
      rw [← find?_listed, hlisted]
      show firstNamed? (((Catalog.members? "Function").getD ((Catalog.members? "Object").getD [])).map
        (.ofBuiltIn none)) name = _
      rw [hlisted]
      rfl
    rw [hfirst, Option.none_or] at hown
    rw [← inheritedMembers] at h
    simp only [hfirst, hfunction, Option.map_none, Option.none_or, Option.map_eq_some_iff] at h
    obtain ⟨m, hm, rfl⟩ := h
    rcases hor with hnone | hnone
    · rw [hnone] at hown hm
      rw [Option.or_none] at hm
      rw [lookup?_of_not_own hown]
      simp only [inherited?, findSome?_lineage fun _ => hnone, hm]
      rfl
    · rw [hnone, Option.none_or] at hm
      rw [lookup?_of_lookup? (hown.trans hm)]
      rfl

end ScopeTree

/-- What a function returns is shown under `call` and `apply` only. -/
theorem find?_function {name : String} (hcall : name ≠ "call") (happly : name ≠ "apply") (result : Ty) :
    ∀ members : List Member,
      (members.map fun m => known ownOrder (if m.name = "call" ∨ m.name = "apply" then { m with type := result }
        else m)).find? (·.label = name) = (members.map (known ownOrder)).find? (·.label = name)
  | [] => rfl
  | m :: members => by
    rw [List.map_cons, List.map_cons, List.find?_cons, List.find?_cons, find?_function hcall happly result members]
    by_cases hm : m.name = "call" ∨ m.name = "apply"
    · have hne : m.name ≠ name := by
        rintro rfl
        exact hm.elim hcall happly
      have h1 : (decide ((known ownOrder m).label = name)) = false := decide_eq_false hne
      have h2 : (decide ((known ownOrder { m with type := result }).label = name)) = false := decide_eq_false hne
      rw [if_pos hm, h1, h2]
    · rw [if_neg hm]

/-- A member that is offered has the type that its name is resolved to, where the walks agree. -/
theorem memberType_offered (inference : Inference) {ty : Ty} (hty : ty.isUnknown = false) {o : OfferedMember}
    (ho : o ∈ inference.tree.offered ty) (h : inference.tree.Resolves ty o.label) :
    inference.memberType ty o.label = o.member.type := by
  have hfind := ScopeTree.find?_of_mem_offered ho
  suffices hlookup : inference.tree.lookup? ScopeTree.root ty o.label = some o.member by
    rw [Inference.memberType, hlookup]
    rfl
  have hlisted : ty.class? = none → (ty.members.map (known ownOrder)).find? (·.label = o.label) = some o →
      inference.tree.lookup? ScopeTree.root ty o.label = some o.member := by
    intro hclass hfind
    rw [find?_map_known, Option.map_eq_some_iff] at hfind
    obtain ⟨m, hm, hmo⟩ := hfind
    rw [ScopeTree.lookup?_of_lookup? (lookup?_of_members hclass hm), ← hmo]
    rfl
  cases ty with
  | unknown => cases hty
  | «class» info =>
    cases hside : info.side with
    | instanceSide => exact ScopeTree.lookup?_of_instanceOffered hside hfind h
    | constructorSide => exact ScopeTree.lookup?_of_constructorOffered hside hfind h
  | function name params result =>
    exact hlisted rfl ((find?_function h.1 h.2 result _).symm.trans hfind)
  | _ => exact hlisted rfl hfind

namespace Document

/-- **A member that is offered after an expression of known type has the type that its name is
resolved to**, where the two walks agree. -/
theorem memberType_membersAt (d : Document) (guesses : Bool) (chain : List Char) (offset : Nat)
    (hty : (d.typeAt guesses chain offset).isUnknown = false) {o : OfferedMember}
    (ho : o ∈ d.membersAt guesses chain offset)
    (h : d.tree.Resolves (d.typeAt guesses chain offset) o.label) :
    (d.inference guesses).memberType (d.typeAt guesses chain offset) o.label = o.member.type :=
  memberType_offered (d.inference guesses) hty ho h

theorem memberType_membersAt_inherited :
    let d := ofText "class A { m() { return 1; } } class B extends A {}\nconst b = new B();".toList .javascript
    ∀ o ∈ d.membersAt true ['b'] 69, o.label = "m" ∧
      (d.inference true).memberType (d.typeAt true ['b'] 69) o.label = o.member.type := by
  intro d o ho
  have hlabel : ∀ o ∈ d.membersAt true ['b'] 69, o.label = "m" := by decide +kernel
  have hresolves : ∀ o ∈ d.membersAt true ['b'] 69, d.tree.Resolves (d.typeAt true ['b'] 69) o.label := by
    decide +kernel
  exact ⟨hlabel o ho, memberType_membersAt d true ['b'] 69 (by decide +kernel) ho (hresolves o ho)⟩

/-- What `call` of a function returns is offered as what the function returns, and resolved to nothing. -/
theorem memberType_membersAt_call :
    let d := ofText "const shout = (s) => 'x';".toList .javascript
    let ty := d.typeAt true "shout".toList 25
    ty.isUnknown = false ∧ ∃ o ∈ d.membersAt true "shout".toList 25, o.label = "call" ∧
      (d.inference true).memberType ty o.label ≠ o.member.type := by
  intro d ty
  have hcall : ∃ o ∈ OfferedMember.distinct (d.tree.candidates ty), o.label = "call" ∧
      o.member.type.isUnknown = false ∧ ((d.inference true).memberType ty o.label).isUnknown = true := by
    decide +kernel
  obtain ⟨o, ho, hlabel, hshown, hresolved⟩ := hcall
  refine ⟨by decide +kernel, o, List.mem_mergeSort.2 ho, hlabel, fun h => ?_⟩
  rw [h, hshown] at hresolved
  cases hresolved

end Document
end Typeahead
