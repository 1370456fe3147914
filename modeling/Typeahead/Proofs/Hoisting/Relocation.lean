/-
# Trees at other places of a text

A piece of syntax that is moved to another place of a text has other offsets, in the same order.
Nothing that is read off a tree depends on them: what is read off the moved tree is what is read off
the tree, moved.

Key definitions: `Node.relocate`, `Node.Moved`, `Node.Mentions`, `Node.Throughout`.
Key theorems: `NodeKind.children_relocate`, `Node.returned_relocate`, `Node.selfMembers_relocate`.
-/
import Mathlib.Order.Monotone.Basic
import Typeahead.Proofs.Layout.Tree
import Typeahead.Tree.Shape

namespace Typeahead

/-- A range with its offsets moved. -/
def TextRange.relocate (place : Nat → Nat) (range : TextRange) : TextRange := ⟨place range.start, place range.stop⟩

mutual
/-- A tree with its offsets moved. -/
def Node.relocate (place : Nat → Nat) : Node → Node
  | ⟨range, kind⟩ => ⟨range.relocate place, kind.relocate place⟩

/-- What a node is once the offsets in it are moved. -/
def NodeKind.relocate (place : Nat → Nat) : NodeKind → NodeKind
  | .program body => .program (relocateAll place body)
  | .arrayLiteral items => .arrayLiteral (relocateAll place items)
  | .objectLiteral items => .objectLiteral (relocateAll place items)
  | .property key value computed shorthand method =>
    .property (key.relocate place) (value.relocate place) computed shorthand method
  | .spread argument => .spread (argument.relocate place)
  | .member object property computed chained =>
    .member (object.relocate place) (property.relocate place) computed chained
  | .call callee arguments chained => .call (callee.relocate place) (relocateAll place arguments) chained
  | .new callee arguments => .new (callee.relocate place) (relocateAll place arguments)
  | .binary operator left right => .binary operator (left.relocate place) (right.relocate place)
  | .logical operator left right => .logical operator (left.relocate place) (right.relocate place)
  | .unary operator argument => .unary operator (argument.relocate place)
  | .update operator first argument => .update operator first (argument.relocate place)
  | .conditional test consequent alternate =>
    .conditional (test.relocate place) (consequent.relocate place) (alternate.relocate place)
  | .assignment operator target value => .assignment operator (target.relocate place) (value.relocate place)
  | .sequence items => .sequence (relocateAll place items)
  | .parenthesized inner => .parenthesized (inner.relocate place)
  | .arrowFunction params body isAsync => .arrowFunction (relocateAll place params) (body.relocate place) isAsync
  | .parameter name target fallback isRest =>
    .parameter name (relocateSome place target) (relocateSome place fallback) isRest
  | .functionExpression parts => .functionExpression (parts.relocate place)
  | .classExpression parts => .classExpression (parts.relocate place)
  | .methodMember key kind isStatic value => .methodMember key kind isStatic (value.relocate place)
  | .fieldMember key value isStatic => .fieldMember key (relocateSome place value) isStatic
  | .functionDeclaration parts => .functionDeclaration (parts.relocate place)
  | .classDeclaration parts => .classDeclaration (parts.relocate place)
  | .variableDeclaration kind declarations => .variableDeclaration kind (relocateAll place declarations)
  | .variableDeclarator target init => .variableDeclarator (target.relocate place) (relocateSome place init)
  | .expressionStatement inner => .expressionStatement (inner.relocate place)
  | .return argument => .return (relocateSome place argument)
  | .block body => .block (relocateAll place body)
  | .if test consequent alternate =>
    .if (test.relocate place) (consequent.relocate place) (relocateSome place alternate)
  | .while test body => .while (test.relocate place) (body.relocate place)
  | .doWhile body test => .doWhile (body.relocate place) (test.relocate place)
  | .for init test step body =>
    .for (relocateSome place init) (relocateSome place test) (relocateSome place step) (body.relocate place)
  | .forInOf left right body isOf =>
    .forInOf (left.relocate place) (right.relocate place) (body.relocate place) isOf
  | .switch discriminant cases => .switch (discriminant.relocate place) (relocateAll place cases)
  | .switchCase test consequent => .switchCase (relocateSome place test) (relocateAll place consequent)
  | .try tried handler finalizer =>
    .try (tried.relocate place) (relocateSome place handler) (relocateSome place finalizer)
  | .catchClause param body => .catchClause param (body.relocate place)
  | .throw argument => .throw (argument.relocate place)
  | kind => kind

/-- The parts of a function with their offsets moved. -/
def FunctionParts.relocate (place : Nat → Nat) : FunctionParts Node → FunctionParts Node
  | ⟨name, params, body, isAsync⟩ => ⟨name, relocateAll place params, body.relocate place, isAsync⟩

/-- The parts of a class with their offsets moved. -/
def ClassParts.relocate (place : Nat → Nat) : ClassParts Node → ClassParts Node
  | ⟨name, superclass, members, range⟩ =>
    ⟨name, relocateSome place superclass, relocateAll place members, range.relocate place⟩

/-- Trees with their offsets moved. -/
def relocateAll (place : Nat → Nat) : List Node → List Node
  | [] => []
  | n :: rest => n.relocate place :: relocateAll place rest

/-- A tree that may be absent with its offsets moved. -/
def relocateSome (place : Nat → Nat) : Option Node → Option Node
  | none => none
  | some n => some (n.relocate place)
end


@[simp] theorem relocateAll_eq_map (place : Nat → Nat) : ∀ l, relocateAll place l = l.map (Node.relocate place)
  | [] => rfl
  | n :: rest => congrArg (n.relocate place :: ·) (relocateAll_eq_map place rest)

@[simp] theorem relocateSome_eq_map (place : Nat → Nat) (o : Option Node) :
    relocateSome place o = o.map (Node.relocate place) := by
  cases o <;> rfl

namespace Node

/-- The two are one tree at two places: the offsets of one are in the order of those of the other. -/
def Moved (n n' : Node) : Prop :=
  ∃ (origin : Node) (f g : Nat → Nat), StrictMono f ∧ StrictMono g ∧ n = origin.relocate f ∧ n' = origin.relocate g

end Node

/-- The name that a node is or declares. -/
def NodeKind.named? : NodeKind → Option String
  | .identifier name | .parameter name _ _ _ => some name
  | .functionDeclaration parts => parts.name
  | .classDeclaration parts => parts.name
  | .catchClause param _ => param
  | _ => none

theorem Node.named?_of_identifier? {n : Node} {name : String} (h : n.identifier? = some name) :
    n.kind.named? = some name := by
  obtain ⟨range, kind⟩ := n
  cases kind with
  | identifier own => exact h
  | _ => cases h

/-- The name stands in the tree, as an identifier or as what is declared. -/
def Node.Mentions (n : Node) (name : String) : Prop := ∃ m, n.Contains m ∧ m.kind.named? = some name

/-! ### What is read off a tree -/

section

variable (place : Nat → Nat)

@[simp] theorem Node.kind_relocate (n : Node) : (n.relocate place).kind = n.kind.relocate place := by
  cases n
  rfl

@[simp] theorem Node.start_relocate (n : Node) : (n.relocate place).start = place n.start := by
  cases n
  rfl

@[simp] theorem FunctionParts.relocate_eq (parts : FunctionParts Node) :
    parts.relocate place =
      ⟨parts.name, parts.params.map (Node.relocate place), parts.body.relocate place, parts.isAsync⟩ := by
  cases parts
  simp [FunctionParts.relocate]

@[simp] theorem ClassParts.relocate_eq (parts : ClassParts Node) :
    parts.relocate place = ⟨parts.name, parts.superclass.map (Node.relocate place),
      parts.members.map (Node.relocate place), parts.bodyRange.relocate place⟩ := by
  cases parts
  simp [ClassParts.relocate]

theorem NodeKind.children_relocate (kind : NodeKind) :
    (kind.relocate place).children = kind.children.map (Node.relocate place) := by
  cases kind <;> simp [NodeKind.relocate, NodeKind.children, Option.toList_map]

theorem NodeKind.named?_relocate (kind : NodeKind) : (kind.relocate place).named? = kind.named? := by
  cases kind <;> simp [NodeKind.relocate, NodeKind.named?]

namespace Node

theorem contains_relocate {n m : Node} (h : n.Contains m) : (n.relocate place).Contains (m.relocate place) := by
  induction h with
  | self n => exact .self _
  | @inside n c m hc _ ih =>
    refine .inside ?_ ih
    rw [kind_relocate, NodeKind.children_relocate]
    exact List.mem_map_of_mem hc

theorem Mentions.relocate {n : Node} {name : String} (h : n.Mentions name) : (n.relocate place).Mentions name := by
  obtain ⟨m, hm, hname⟩ := h
  exact ⟨m.relocate place, contains_relocate place hm, by rw [kind_relocate, NodeKind.named?_relocate, hname]⟩

@[simp] theorem identifier?_relocate (n : Node) : (n.relocate place).identifier? = n.identifier? := by
  obtain ⟨range, kind⟩ := n
  cases kind <;> rfl

@[simp] theorem unparenthesized_relocate :
    ∀ n : Node, (n.relocate place).unparenthesized = n.unparenthesized.relocate place
  | ⟨_, kind⟩ => by
    cases kind with
    | parenthesized inner => exact unparenthesized_relocate inner
    | _ => rfl

@[simp] theorem propertyKey?_relocate (key : Node) (computed : Bool) :
    (key.relocate place).propertyKey? computed = key.propertyKey? computed := by
  obtain ⟨range, kind⟩ := key
  cases kind <;> rfl

@[simp] theorem isBlock_relocate (n : Node) : (n.relocate place).isBlock = n.isBlock := by
  obtain ⟨range, kind⟩ := n
  cases kind <;> rfl

theorem classExpression?_relocate (n : Node) :
    (n.relocate place).classExpression? = n.classExpression?.map (ClassParts.relocate place) := by
  rw [classExpression?, unparenthesized_relocate, classExpression?]
  obtain ⟨range, kind⟩ := n.unparenthesized
  cases kind <;> rfl

@[simp] theorem parameterNames_relocate (params : List Node) :
    parameterNames (params.map (Node.relocate place)) = parameterNames params := by
  rw [parameterNames, List.filterMap_map, parameterNames]
  refine congrArg (List.filterMap · params) (funext fun n => ?_)
  obtain ⟨range, kind⟩ := n
  cases kind with
  | parameter name target fallback isRest =>
    by_cases h : name = "" <;> cases isRest <;> simp [relocate, NodeKind.relocate, kind, h]
  | _ => rfl

mutual
theorem returned_relocate : ∀ n : Node, (n.relocate place).returned = n.returned.map (Node.relocate place)
  | ⟨_, kind⟩ => by
    cases kind with
    | «return» argument => cases argument <;> rfl
    | block body => exact returnedInAll_relocate body
    | «if» test consequent alternate =>
      exact (congrArg₂ (· ++ ·) (returned_relocate consequent)
        (returnedInSome_relocate alternate)).trans List.map_append.symm
    | «while» test body => exact returned_relocate body
    | doWhile body test => exact returned_relocate body
    | «for» init test step body => exact returned_relocate body
    | forInOf left right body isOf => exact returned_relocate body
    | switch discriminant branches => exact returnedInAll_relocate branches
    | switchCase test consequent => exact returnedInAll_relocate consequent
    | «try» block handler finalizer =>
      simp only [Node.relocate, NodeKind.relocate, returned, returned_relocate block, returnedInSome_relocate handler,
        returnedInSome_relocate finalizer, List.map_append]
    | catchClause param body => exact returned_relocate body
    | _ => rfl

theorem returnedInAll_relocate : ∀ l : List Node,
    returnedInAll (relocateAll place l) = (returnedInAll l).map (Node.relocate place)
  | [] => rfl
  | n :: rest =>
    (congrArg₂ (· ++ ·) (returned_relocate n) (returnedInAll_relocate rest)).trans List.map_append.symm

theorem returnedInSome_relocate : ∀ o : Option Node,
    returnedInSome (relocateSome place o) = (returnedInSome o).map (Node.relocate place)
  | none => rfl
  | some n => returned_relocate n
end

/-- An assignment to a member of `this` with its offsets moved. -/
def relocateEntry (entry : String × Node) : String × Node := (entry.1, entry.2.relocate place)

theorem selfMember?_relocate (n : Node) : selfMember? (n.relocate place) = selfMember? n := by
  obtain ⟨range, kind⟩ := n
  cases kind with
  | member object property computed chained =>
    obtain ⟨objectRange, objectKind⟩ := object
    cases computed with
    | true => cases objectKind <;> rfl
    | false =>
      cases objectKind with
      | this => exact identifier?_relocate place property
      | _ => rfl
  | _ => rfl

mutual
theorem selfAssigned_relocate : ∀ n : Node, (n.relocate place).selfAssigned = n.selfAssigned.map (relocateEntry place)
  | ⟨_, kind⟩ => by
    cases kind with
    | assignment operator target value =>
      simp only [Node.relocate, NodeKind.relocate, selfAssigned, selfMember?_relocate, selfAssigned_relocate value]
      split
      · split <;> rfl
      · rfl
    | expressionStatement inner => exact selfAssigned_relocate inner
    | sequence items => exact selfAssignedInAll_relocate items
    | block body => exact selfAssignedInAll_relocate body
    | «if» test consequent alternate =>
      exact (congrArg₂ (· ++ ·) (selfAssigned_relocate consequent) (selfAssignedInSome_relocate alternate)).trans
        List.map_append.symm
    | «try» block handler finalizer => exact selfAssigned_relocate block
    | call callee arguments chained => exact selfAssignedInArrows_relocate arguments
    | _ => rfl

theorem selfAssignedInAll_relocate : ∀ l : List Node,
    selfAssignedInAll (relocateAll place l) = (selfAssignedInAll l).map (relocateEntry place)
  | [] => rfl
  | n :: rest =>
    (congrArg₂ (· ++ ·) (selfAssigned_relocate n) (selfAssignedInAll_relocate rest)).trans List.map_append.symm

theorem selfAssignedInSome_relocate : ∀ o : Option Node,
    selfAssignedInSome (relocateSome place o) = (selfAssignedInSome o).map (relocateEntry place)
  | none => rfl
  | some n => selfAssigned_relocate n

theorem selfAssignedInArrows_relocate : ∀ l : List Node,
    selfAssignedInArrows (relocateAll place l) = (selfAssignedInArrows l).map (relocateEntry place)
  | [] => rfl
  | ⟨_, kind⟩ :: rest => by
    cases kind with
    | arrowFunction params body isAsync =>
      exact (congrArg₂ (· ++ ·) (selfAssigned_relocate body) (selfAssignedInArrows_relocate rest)).trans
        List.map_append.symm
    | _ => exact selfAssignedInArrows_relocate rest
end

theorem selfMembers_relocate (body : Node) :
    (body.relocate place).selfMembers = body.selfMembers.map (relocateEntry place) := by
  have hget : ∀ (found : Entries Node) (name : String),
      (Entries.get? (found.map (relocateEntry place)) name).isSome = (found.get? name).isSome := by
    intro found name
    induction found with
    | nil => rfl
    | cons entry rest ih =>
      simp only [List.map_cons, Entries.get?, relocateEntry]
      split
      · rfl
      · exact ih
  rw [selfMembers, selfAssigned_relocate, List.foldl_map, selfMembers]
  refine @List.foldl_hom (Entries Node) (Entries Node) _ (List.map (relocateEntry place)) _ _ _ []
    fun found entry => ?_
  rw [hget, relocateEntry]
  split
  · rfl
  · simp [relocateEntry]

end Node

end

/-! ### What lies in a tree -/

/-- Every node in the tree, itself included, is of some kinds. -/
def Node.Throughout (Q : NodeKind → Prop) (n : Node) : Prop := ∀ m, n.Contains m → Q m.kind

/-- Every node in some trees is of some kinds. -/
def AllThroughout (Q : NodeKind → Prop) (nodes : List Node) : Prop := ∀ n ∈ nodes, n.Throughout Q

section

variable {Q : NodeKind → Prop} {n m : Node} {range : TextRange} {kind : NodeKind} {l l' : List Node}

namespace Node.Throughout

theorem own (h : Node.Throughout Q ⟨range, kind⟩) : Q kind := h _ (.self _)

theorem of_contains (h : n.Throughout Q) (hm : n.Contains m) : m.Throughout Q := fun k hk => h k (hm.trans hk)

theorem children (h : Node.Throughout Q ⟨range, kind⟩) : AllThroughout Q kind.children := fun c hc =>
  h.of_contains (.inside hc (.self c))

end Node.Throughout

theorem throughout_iff : Node.Throughout Q ⟨range, kind⟩ ↔ Q kind ∧ AllThroughout Q kind.children := by
  refine ⟨fun h => ⟨h.own, h.children⟩, fun h m hm => ?_⟩
  cases hm with
  | self => exact h.1
  | inside hc hm => exact h.2 _ hc _ hm

theorem allThroughout_nil : AllThroughout Q [] := List.forall_mem_nil _

theorem allThroughout_cons : AllThroughout Q (n :: l) ↔ n.Throughout Q ∧ AllThroughout Q l := List.forall_mem_cons

theorem allThroughout_true (l : List Node) : AllThroughout (fun _ => True) l := fun _ _ _ _ => trivial

namespace AllThroughout

theorem head (h : AllThroughout Q (n :: l)) : n.Throughout Q := h n List.mem_cons_self

theorem tail (h : AllThroughout Q (n :: l)) : AllThroughout Q l := fun m hm => h m (List.mem_cons_of_mem _ hm)

theorem left (h : AllThroughout Q (l ++ l')) : AllThroughout Q l := fun n hn => h n (List.mem_append_left _ hn)

theorem right (h : AllThroughout Q (l ++ l')) : AllThroughout Q l' := fun n hn => h n (List.mem_append_right _ hn)

end AllThroughout

end

namespace Node

variable {n m : Node}

theorem contains_unparenthesized : ∀ n : Node, n.Contains n.unparenthesized
  | ⟨_, kind⟩ => by
    cases kind with
    | parenthesized inner => exact .inside List.mem_cons_self (contains_unparenthesized inner)
    | _ => exact .self _

/-- Something lies in one of some nodes. -/
def AnyContains (l : List Node) (m : Node) : Prop := ∃ n ∈ l, n.Contains m

theorem AnyContains.inside {range : TextRange} {kind : NodeKind} {l : List Node} (h : AnyContains l m)
    (hl : l ⊆ kind.children) : Contains ⟨range, kind⟩ m := by
  obtain ⟨c, hc, hm⟩ := h
  exact .inside (hl hc) hm

theorem AnyContains.head {l : List Node} (h : n.Contains m) : AnyContains (n :: l) m := ⟨n, List.mem_cons_self, h⟩

theorem AnyContains.tail {l : List Node} (h : AnyContains l m) : AnyContains (n :: l) m :=
  h.imp fun _ hc => ⟨List.mem_cons_of_mem _ hc.1, hc.2⟩

mutual
theorem contains_of_mem_returned : ∀ n : Node, m ∈ n.returned → n.Contains m
  | ⟨_, kind⟩, h => by
    cases kind with
    | «return» argument =>
      cases argument with
      | none => cases h
      | some argument =>
        obtain rfl := List.mem_singleton.1 h
        exact .inside List.mem_cons_self (.self m)
    | block body => exact (anyContains_of_mem_returned body h).inside (List.Subset.refl _)
    | «if» test consequent alternate =>
      rcases List.mem_append.1 h with h | h
      · exact .inside (by simp [kind, NodeKind.children]) (contains_of_mem_returned consequent h)
      · exact (someContains_of_mem_returned alternate h).inside (by simp [NodeKind.children])
    | «while» test body => exact .inside (by simp [kind, NodeKind.children]) (contains_of_mem_returned body h)
    | doWhile body test => exact .inside (by simp [kind, NodeKind.children]) (contains_of_mem_returned body h)
    | «for» init test step body => exact .inside (by simp [kind, NodeKind.children]) (contains_of_mem_returned body h)
    | forInOf left right body isOf =>
      exact .inside (by simp [kind, NodeKind.children]) (contains_of_mem_returned body h)
    | switch discriminant branches =>
      exact (anyContains_of_mem_returned branches h).inside (by simp [NodeKind.children])
    | switchCase test consequent =>
      exact (anyContains_of_mem_returned consequent h).inside (by simp [NodeKind.children])
    | «try» block handler finalizer =>
      simp only [returned, List.mem_append] at h
      rcases h with (h | h) | h
      · exact .inside (by simp [kind, NodeKind.children]) (contains_of_mem_returned block h)
      · exact (someContains_of_mem_returned handler h).inside (by simp [NodeKind.children])
      · exact (someContains_of_mem_returned finalizer h).inside (by simp [NodeKind.children])
    | catchClause param body => exact .inside List.mem_cons_self (contains_of_mem_returned body h)
    | _ => cases h

theorem anyContains_of_mem_returned : ∀ l : List Node, m ∈ returnedInAll l → AnyContains l m
  | [], h => by cases h
  | n :: rest, h =>
    (List.mem_append.1 h).elim (fun h => .head (contains_of_mem_returned n h))
      fun h => .tail (anyContains_of_mem_returned rest h)

theorem someContains_of_mem_returned : ∀ o : Option Node, m ∈ returnedInSome o → AnyContains o.toList m
  | none, h => by cases h
  | some n, h => .head (contains_of_mem_returned n h)
end

variable {entry : String × Node}

mutual
theorem contains_of_mem_selfAssigned : ∀ n : Node, entry ∈ n.selfAssigned → n.Contains entry.2
  | ⟨range, kind⟩, h => by
    cases kind with
    | assignment operator target value =>
      have hvalue : ∀ {m}, value.Contains m → Contains ⟨range, .assignment operator target value⟩ m :=
        .inside (by simp [Node.kind, NodeKind.children])
      rw [selfAssigned] at h
      split at h
      · split at h
        · rcases List.mem_cons.1 h with rfl | h
          · exact hvalue (.self value)
          · exact hvalue (contains_of_mem_selfAssigned value h)
        · exact hvalue (contains_of_mem_selfAssigned value h)
      · cases h
    | expressionStatement inner => exact .inside List.mem_cons_self (contains_of_mem_selfAssigned inner h)
    | sequence items => exact (anyContains_of_mem_selfAssigned items h).inside (List.Subset.refl _)
    | block body => exact (anyContains_of_mem_selfAssigned body h).inside (List.Subset.refl _)
    | «if» test consequent alternate =>
      rcases List.mem_append.1 h with h | h
      · exact .inside (by simp [kind, NodeKind.children]) (contains_of_mem_selfAssigned consequent h)
      · exact (someContains_of_mem_selfAssigned alternate h).inside (by simp [NodeKind.children])
    | «try» block handler finalizer => exact .inside List.mem_cons_self (contains_of_mem_selfAssigned block h)
    | call callee arguments chained =>
      exact (arrowsContain_of_mem_selfAssigned arguments h).inside (by simp [NodeKind.children])
    | _ => cases h

theorem anyContains_of_mem_selfAssigned : ∀ l : List Node, entry ∈ selfAssignedInAll l → AnyContains l entry.2
  | [], h => by cases h
  | n :: rest, h =>
    (List.mem_append.1 h).elim (fun h => .head (contains_of_mem_selfAssigned n h))
      fun h => .tail (anyContains_of_mem_selfAssigned rest h)

theorem someContains_of_mem_selfAssigned :
    ∀ o : Option Node, entry ∈ selfAssignedInSome o → AnyContains o.toList entry.2
  | none, h => by cases h
  | some n, h => .head (contains_of_mem_selfAssigned n h)

theorem arrowsContain_of_mem_selfAssigned : ∀ l : List Node, entry ∈ selfAssignedInArrows l → AnyContains l entry.2
  | [], h => by cases h
  | ⟨_, kind⟩ :: rest, h => by
    cases kind with
    | arrowFunction params body isAsync =>
      rcases List.mem_append.1 h with h | h
      · exact .head (.inside (by simp [Node.kind, NodeKind.children]) (contains_of_mem_selfAssigned body h))
      · exact .tail (arrowsContain_of_mem_selfAssigned rest h)
    | _ => exact .tail (arrowsContain_of_mem_selfAssigned rest h)
end

theorem contains_of_mem_selfMembers (h : entry ∈ n.selfMembers) : n.Contains entry.2 := by
  have hfold : ∀ (l : List (String × Node)) (found : Entries Node),
      entry ∈ l.foldl (fun found e => if (found.get? e.1).isSome then found else found ++ [e]) found →
        entry ∈ found ∨ entry ∈ l := by
    intro l
    induction l with
    | nil => exact fun _ h => .inl h
    | cons e rest ih =>
      intro found h
      refine (ih _ h).elim (fun h => ?_) fun h => .inr (List.mem_cons_of_mem _ h)
      dsimp only at h
      split at h
      · exact .inl h
      · exact (List.mem_append.1 h).imp id fun h => List.mem_cons.2 (.inl (List.mem_singleton.1 h))
  exact contains_of_mem_selfAssigned n ((hfold _ _ h).resolve_left List.not_mem_nil)

end Node
end Typeahead
