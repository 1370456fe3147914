/-
# The members of a class

A class is evaluated one element after the other. A method adds itself, and what its body assigns
to members of `this`, where nothing of that name is on its side yet; a field takes the place of
whatever is there. So the class never has two members of one name on one side, it has the members
that its elements declare and no others, and a member that is declared as a field is what its last
field says, whichever methods and assignments of that name stand before or behind it.

Key definitions: `Node.DeclaresMember`, `ClassInfo.membersOf`, `Evaluator.fieldMember`.
Key theorems: `Evaluator.mem_keys_addElement`, `Evaluator.nodup_addElement`,
`Evaluator.membersOf_addElement`, `members_classInfo`.
-/
import Typeahead.Proofs.Depth.Script
import Typeahead.Proofs.Scope.Untyped

namespace Typeahead

/-- An element of a class declares a member: a method or an accessor other than the constructor by
its key, a field by its key, and every method what its body assigns to members of `this`. -/
inductive Node.DeclaresMember : Node → (name : String) → (isStatic : Bool) → Prop where
  | method {range key kind isStatic value} : kind ≠ .constructor →
      DeclaresMember ⟨range, .methodMember key kind isStatic value⟩ key isStatic
  | field {range key value isStatic} : DeclaresMember ⟨range, .fieldMember key value isStatic⟩ key isStatic
  | assigned {range key kind isStatic functionRange parts name} : name ∈ parts.body.selfMembers.keys →
      DeclaresMember ⟨range, .methodMember key kind isStatic ⟨functionRange, .functionExpression parts⟩⟩ name isStatic

/-! ### Adding and replacing -/

namespace ClassInfo

variable {τ : Type} {info : ClassInfo τ} {m e : ClassMember τ} {name : String} {isStatic : Bool}

/-- The members of a name on a side. -/
def membersOf (info : ClassInfo τ) (name : String) (isStatic : Bool) : List (ClassMember τ) :=
  info.members.filter fun m => m.name == name && m.isStatic == isStatic

theorem mem_keys_addMember {key : String × Bool} :
    key ∈ (info.addMember m).keys ↔ key ∈ info.keys ∨ key = (m.name, m.isStatic) := by
  rw [keys_addMember]
  split
  · rename_i h
    exact ⟨.inl, fun hkey => hkey.elim id fun heq => heq ▸ h⟩
  · rw [List.mem_append, List.mem_singleton]

theorem mem_keys_replaceMember {key : String × Bool} :
    key ∈ (info.replaceMember m).keys ↔ key ∈ info.keys ∨ key = (m.name, m.isStatic) := by
  obtain ⟨name, isStatic⟩ := key
  rw [keys_replaceMember, List.mem_append, List.mem_filter, List.mem_singleton]
  by_cases h : (name, isStatic) = (m.name, m.isStatic)
  · simp [h]
  · have hother : (name != m.name || isStatic != m.isStatic) = true := by
      simpa [Prod.ext_iff, ← not_and_or] using h
    simp [h, hother]

theorem nodup_addMember (h : info.keys.Nodup) : (info.addMember m).keys.Nodup := by
  rw [keys_addMember]
  split
  · exact h
  · rename_i hkey
    exact List.nodup_append.2 ⟨h, List.pairwise_singleton _ _, by grind⟩

theorem nodup_replaceMember (h : info.keys.Nodup) : (info.replaceMember m).keys.Nodup := by
  rw [keys_replaceMember]
  exact List.nodup_append.2 ⟨h.filter _, List.pairwise_singleton _ _, by grind⟩

/-- A member that is there stays, whatever is added. -/
theorem membersOf_addMember (h : info.membersOf name isStatic = [e]) :
    (info.addMember m).membersOf name isStatic = [e] := by
  rw [addMember]
  split
  · exact h
  · rename_i hm
    have hother : (m.name == name && m.isStatic == isStatic) = false := by
      by_contra hsame
      have hmem : e ∈ info.membersOf name isStatic := h ▸ List.mem_singleton_self e
      rw [membersOf, List.mem_filter] at hmem
      exact hm (List.any_eq_true.2 ⟨e, hmem.1, by grind⟩)
    rw [membersOf, List.filter_append, List.filter_singleton, hother]
    simpa [membersOf] using h

/-- What replaces others is the only one of its name. -/
theorem membersOf_replaceMember_self (info : ClassInfo τ) (m : ClassMember τ) :
    (info.replaceMember m).membersOf m.name m.isStatic = [m] := by
  simp only [membersOf, replaceMember, List.filter_append, List.filter_filter]
  rw [List.filter_eq_nil_iff.2 fun other _ => by grind]
  simp

/-- What is replaced is of the same name and on the same side. -/
theorem membersOf_replaceMember (h : (m.name, m.isStatic) ≠ (name, isStatic)) :
    (info.replaceMember m).membersOf name isStatic = info.membersOf name isStatic := by
  have hm : (m.name == name && m.isStatic == isStatic) = false := by
    simpa [Prod.ext_iff] using h
  simp only [membersOf, replaceMember, List.filter_append, List.filter_filter, List.filter_singleton, hm]
  rw [cond_false, List.append_nil]
  exact List.filter_congr fun other _ => by grind

section Assignments

variable {α : Type} {kind : MemberKind} {value : α → τ}

theorem mem_keys_foldl_addMember {key : String × Bool} : ∀ (l : Entries α) (info : ClassInfo τ),
    key ∈ (l.foldl (fun found entry => found.addMember ⟨entry.1, kind, isStatic, value entry.2⟩) info).keys ↔
      key ∈ info.keys ∨ key.1 ∈ l.keys ∧ key.2 = isStatic
  | [], info => by simp [Entries.keys]
  | entry :: rest, info => by
    have hkeys : key.1 ∈ Entries.keys (entry :: rest) ↔ key.1 = entry.1 ∨ key.1 ∈ Entries.keys rest := List.mem_cons
    rw [List.foldl_cons, mem_keys_foldl_addMember rest, mem_keys_addMember, hkeys, or_assoc, Prod.ext_iff,
      or_and_right]

theorem nodup_foldl_addMember : ∀ (l : Entries α) {info : ClassInfo τ}, info.keys.Nodup →
    (l.foldl (fun found entry => found.addMember ⟨entry.1, kind, isStatic, value entry.2⟩) info).keys.Nodup
  | [], _, h => h
  | _ :: rest, _, h => nodup_foldl_addMember rest (nodup_addMember h)

theorem membersOf_foldl_addMember {side : Bool} : ∀ (l : Entries α) {info : ClassInfo τ},
    info.membersOf name isStatic = [e] →
      (l.foldl (fun found entry => found.addMember ⟨entry.1, kind, side, value entry.2⟩) info).membersOf
        name isStatic = [e]
  | [], _, h => h
  | _ :: rest, _, h => membersOf_foldl_addMember rest (membersOf_addMember h)

end Assignments

end ClassInfo

/-! ### One element -/

namespace Evaluator

open ClassInfo

variable {eval : Evaluator} {env : TypeEnvironment} {info : ClassInfo Ty} {e : ClassMember Ty}

/-- The member that a field is. One that holds a function is a method. -/
def fieldMember (eval : Node → Ty) (key : String) (value : Option Node) (isStatic : Bool) : ClassMember Ty :=
  let type := (value.map eval).getD .unknown
  if type.isFunction then ⟨key, .method, isStatic, type.callResult⟩ else ⟨key, .property, isStatic, type⟩

theorem addField_eq (eval : Node → Ty) (info : ClassInfo Ty) (key : String) (value : Option Node)
    (isStatic : Bool) :
    addField eval info key value isStatic = info.replaceMember (fieldMember eval key value isStatic) := by
  rw [addField, fieldMember]
  split <;> rfl

theorem fieldMember_key (eval : Node → Ty) (key : String) (value : Option Node) (isStatic : Bool) :
    (fieldMember eval key value isStatic).name = key ∧ (fieldMember eval key value isStatic).isStatic = isStatic := by
  rw [fieldMember]
  split <;> exact ⟨rfl, rfl⟩

theorem addElement_field {range : TextRange} {key : String} {value : Option Node} {isStatic : Bool} :
    addElement eval env info ⟨range, .fieldMember key value isStatic⟩ =
      info.replaceMember (fieldMember (eval env) key value isStatic) := addField_eq ..

theorem addElement_method {range functionRange : TextRange} {key : String} {kind : MethodKind} {isStatic : Bool}
    {parts : FunctionParts Node} :
    addElement eval env info ⟨range, .methodMember key kind isStatic ⟨functionRange, .functionExpression parts⟩⟩ =
      addMethod eval env info key kind isStatic parts := rfl

/-- A method adds itself, unless it is the constructor, and then what it assigns. -/
theorem addMethod_eq (eval : Evaluator) (env : TypeEnvironment) (info : ClassInfo Ty) (key : String) (kind : MethodKind)
    (isStatic : Bool) (parts : FunctionParts Node) : ∃ (own : ClassMember Ty) (value : Node → Ty),
      own.name = key ∧ own.isStatic = isStatic ∧
      addMethod eval env info key kind isStatic parts = parts.body.selfMembers.foldl
        (fun found entry => found.addMember ⟨entry.1, .property, isStatic, value entry.2⟩)
        (if kind = .constructor then info else info.addMember own) := by
  cases kind with
  | constructor => exact ⟨⟨key, .method, isStatic, .unknown⟩, _, rfl, rfl, rfl⟩
  | getter | setter | method => exact ⟨⟨key, _, isStatic, _⟩, _, rfl, rfl, rfl⟩

theorem mem_keys_addMethod {key : String} {kind : MethodKind} {isStatic : Bool} {parts : FunctionParts Node}
    {name : String} {side : Bool} :
    (name, side) ∈ (addMethod eval env info key kind isStatic parts).keys ↔ (name, side) ∈ info.keys ∨
      (kind ≠ .constructor ∧ name = key ∨ name ∈ parts.body.selfMembers.keys) ∧ side = isStatic := by
  obtain ⟨own, value, rfl, rfl, heq⟩ := addMethod_eq eval env info key kind isStatic parts
  rw [heq, mem_keys_foldl_addMember]
  split
  · rename_i hkind
    simp [hkind]
  · rename_i hkind
    rw [mem_keys_addMember, Prod.mk.injEq]
    tauto

/-- **An element adds the members it declares**, and no others. -/
theorem mem_keys_addElement {element : Node} (h : element.kind.Abbreviates) {name : String} {isStatic : Bool} :
    (name, isStatic) ∈ (addElement eval env info element).keys ↔
      (name, isStatic) ∈ info.keys ∨ element.DeclaresMember name isStatic := by
  obtain ⟨range, kind⟩ := element
  cases kind with
  | methodMember key kind side value =>
    obtain ⟨functionRange, value⟩ := value
    obtain ⟨parts, rfl⟩ : ∃ parts, value = .functionExpression parts := h
    rw [addElement_method, mem_keys_addMethod]
    refine or_congr Iff.rfl ⟨?_, fun hdeclares => ?_⟩
    · rintro ⟨⟨hkind, rfl⟩ | hassigned, rfl⟩
      · exact .method hkind
      · exact .assigned hassigned
    · cases hdeclares with
      | method hkind => exact ⟨.inl ⟨hkind, rfl⟩, rfl⟩
      | assigned hassigned => exact ⟨.inr hassigned, rfl⟩
  | fieldMember key value side =>
    obtain ⟨hname, hside⟩ := fieldMember_key (eval env) key value side
    rw [addElement_field, mem_keys_replaceMember, hname, hside, Prod.mk.injEq]
    refine or_congr Iff.rfl ⟨?_, fun hdeclares => ?_⟩
    · rintro ⟨rfl, rfl⟩
      exact .field
    · cases hdeclares
      exact ⟨rfl, rfl⟩
  | _ => exact ⟨.inl, fun h => h.elim id fun hdeclares => nomatch hdeclares⟩

/-- Whatever is added, no two members have one name on one side. -/
theorem nodup_addElement (h : info.keys.Nodup) (element : Node) : (addElement eval env info element).keys.Nodup := by
  rw [addElement]
  split
  · rename_i key kind isStatic _ parts _
    obtain ⟨own, value, -, -, heq⟩ := addMethod_eq eval env info key kind isStatic parts
    rw [heq]
    refine nodup_foldl_addMember _ ?_
    split
    · exact h
    · exact nodup_addMember h
  · rw [addField_eq]
    exact nodup_replaceMember h
  · exact h

/-- A member stays as it is until a field of its name comes. -/
theorem membersOf_addElement {name : String} {isStatic : Bool} (h : info.membersOf name isStatic = [e])
    {element : Node} (hfield : ∀ range value, element ≠ ⟨range, .fieldMember name value isStatic⟩) :
    (addElement eval env info element).membersOf name isStatic = [e] := by
  obtain ⟨range, kind⟩ := element
  rw [addElement]
  split
  · rename_i key kind side _ parts _
    obtain ⟨own, value, -, -, heq⟩ := addMethod_eq eval env info key kind side parts
    rw [heq]
    refine membersOf_foldl_addMember _ ?_
    split
    · exact h
    · exact membersOf_addMember h
  · rename_i key value side hkind
    obtain ⟨hname, hside⟩ := fieldMember_key (eval env) key value side
    rw [addField_eq, membersOf_replaceMember]
    · exact h
    · rw [hname, hside]
      intro heq
      obtain ⟨rfl, rfl⟩ := Prod.mk.injEq .. ▸ heq
      exact hfield range value (congrArg (Node.mk range) hkind)
  · exact h

/-! ### All elements -/

theorem mem_keys_foldl_addElement {name : String} {isStatic : Bool} : ∀ (elements : List Node) (info : ClassInfo Ty),
    (∀ element ∈ elements, element.kind.Abbreviates) →
      ((name, isStatic) ∈ (elements.foldl (addElement eval env) info).keys ↔
        (name, isStatic) ∈ info.keys ∨ ∃ element ∈ elements, element.DeclaresMember name isStatic)
  | [], info, _ => by simp
  | element :: rest, info, h => by
    rw [List.foldl_cons, mem_keys_foldl_addElement rest _ fun n hn => h n (List.mem_cons_of_mem _ hn),
      mem_keys_addElement (h element List.mem_cons_self), List.exists_mem_cons_iff, or_assoc]

theorem nodup_foldl_addElement : ∀ (elements : List Node) {info : ClassInfo Ty}, info.keys.Nodup →
    (elements.foldl (addElement eval env) info).keys.Nodup
  | [], _, h => h
  | element :: rest, _, h => nodup_foldl_addElement rest (nodup_addElement h element)

theorem membersOf_foldl_addElement {name : String} {isStatic : Bool} : ∀ (elements : List Node) {info : ClassInfo Ty},
    (∀ element ∈ elements, ∀ range value, element ≠ ⟨range, .fieldMember name value isStatic⟩) →
      info.membersOf name isStatic = [e] →
        (elements.foldl (addElement eval env) info).membersOf name isStatic = [e]
  | [], _, _, h => h
  | element :: rest, _, hfields, h =>
    membersOf_foldl_addElement rest (fun n hn => hfields n (List.mem_cons_of_mem _ hn))
      (membersOf_addElement h (hfields element List.mem_cons_self))

/-- A member that is declared as a field is what the last such field says. -/
theorem membersOf_classInfo {parts : ClassParts Node} {front back : List Node} {range : TextRange} {key : String}
    {value : Option Node} {isStatic : Bool}
    (hmembers : parts.members = front ++ ⟨range, .fieldMember key value isStatic⟩ :: back)
    (hlast : ∀ later ∈ back, ∀ range value, later ≠ ⟨range, .fieldMember key value isStatic⟩) (name : String) :
    (classInfo eval env parts name).membersOf key isStatic = [fieldMember (eval env) key value isStatic] := by
  obtain ⟨hname, hside⟩ := fieldMember_key (eval env) key value isStatic
  rw [classInfo, hmembers, List.foldl_append, List.foldl_cons]
  refine membersOf_foldl_addElement back hlast ?_
  have hself := fun info => membersOf_replaceMember_self info (fieldMember (eval env) key value isStatic)
  simp only [hname, hside] at hself
  rw [addElement_field]
  exact hself _

end Evaluator

open Evaluator

/-- **The members of a class are what its elements declare**: in whatever tree that was parsed the class
is, and whatever is known around it, no two members have one name on one side, there is one for each
name that an element declares, and one that is declared as a field is what its last field says. -/
theorem members_classInfo {text : List Char} {n c : Node} {parts : ClassParts Node}
    (h : ParsedStrictly text n ∨ (parseDocument text).1 = n) (hc : n.Contains c)
    (hclass : c.kind = .classExpression parts ∨ c.kind = .classDeclaration parts)
    (eval : Evaluator) (env : TypeEnvironment) (name : String) :
    let info := classInfo eval env parts name
    info.keys.Nodup ∧
      (∀ key isStatic, (key, isStatic) ∈ info.keys ↔
        ∃ element ∈ parts.members, element.DeclaresMember key isStatic) ∧
      ∀ front range key value isStatic back,
        parts.members = front ++ ⟨range, .fieldMember key value isStatic⟩ :: back →
        (∀ later ∈ back, ∀ range value, later ≠ ⟨range, .fieldMember key value isStatic⟩) →
        info.membersOf key isStatic = [fieldMember (eval env) key value isStatic] := by
  intro info
  have hshaped : n.Shaped nestingLimit := by
    rcases h with h | rfl
    · exact h.shaped
    · exact shaped_parseDocument text
  have helements : ∀ element ∈ parts.members, element.kind.Abbreviates := by
    intro element helement
    have hmem : element ∈ c.kind.children := by
      rcases hclass with hclass | hclass <;> rw [hclass] <;> exact List.mem_append_right _ helement
    exact hshaped.abbreviates _ (hc.trans (.inside hmem (.self _)))
  refine ⟨nodup_foldl_addElement _ List.nodup_nil, fun key isStatic => ?_,
    fun front range key value isStatic back hmembers hlast => membersOf_classInfo hmembers hlast name⟩
  refine (mem_keys_foldl_addElement parts.members _ helements).trans ?_
  exact or_iff_right List.not_mem_nil

/-- A method that assigns a member, and behind it a field of its own name. -/
theorem members_classInfo_method_replaced :
    ∃ n parts, parseExpression "class { a(b) { this.c = b } a }".toList = .ok n ∧ n.kind = .classExpression parts ∧
      let info := classInfo Node.typeIn .builtIn parts "C"
      info.keys.Nodup ∧ ("c", false) ∈ info.keys ∧ info.membersOf "a" false = [⟨"a", .property, false, .unknown⟩] := by
  let assignment : Node := ⟨⟨15, 25⟩, .assignment (.punct .equals)
    ⟨⟨15, 21⟩, .member ⟨⟨15, 19⟩, .this⟩ ⟨⟨20, 21⟩, .identifier "c"⟩ false false⟩ ⟨⟨24, 25⟩, .identifier "b"⟩⟩
  let body : Node := ⟨⟨13, 27⟩, .block [⟨⟨15, 25⟩, .expressionStatement assignment⟩]⟩
  let function : FunctionParts Node := ⟨some "a", [⟨⟨10, 11⟩, .parameter "b" none none false⟩], body, false⟩
  let method : Node := ⟨⟨8, 27⟩, .methodMember "a" .method false ⟨⟨9, 27⟩, .functionExpression function⟩⟩
  let parts : ClassParts Node := ⟨none, none, [method, ⟨⟨28, 29⟩, .fieldMember "a" none false⟩], ⟨6, 31⟩⟩
  have hparse : parseExpression "class { a(b) { this.c = b } a }".toList = .ok ⟨⟨0, 31⟩, .classExpression parts⟩ :=
    eq_ok_of_same (by decide +kernel)
  obtain ⟨hnodup, hdeclared, hlast⟩ := members_classInfo (.inl (.expression hparse)) (.self _) (.inl rfl)
    Node.typeIn .builtIn "C"
  have hassigned : method.DeclaresMember "c" false := .assigned (by decide +kernel)
  exact ⟨_, parts, hparse, rfl, hnodup, (hdeclared _ _).2 ⟨method, List.mem_cons_self, hassigned⟩,
    hlast [method] _ _ _ _ [] rfl (by simp)⟩

end Typeahead
