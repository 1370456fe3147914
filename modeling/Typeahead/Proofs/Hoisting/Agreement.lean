/-
# Evaluation at other places

The type of an expression depends on what is known of the names in it. It is the same at two places
of a text if the same is known there, of all names or of all but one that is not in the expression.

Key definitions: `Node.Avoids`, `TypeEnvironment.AgreeBut`, `Evaluator.Blind`.
Key theorems: `Evaluator.Blind.step`, `Evaluator.Blind.functionType`, `Evaluator.Blind.classInfo`,
`blind_typeIn`.
-/
import Mathlib.Data.List.Basic
import Typeahead.Proofs.Hoisting.Relocation
import Typeahead.Types.Evaluation

namespace Typeahead

/-- A hidden name, if there is one, does not stand in the tree. -/
abbrev Node.Avoids (hidden : Option String) : Node → Prop :=
  Throughout fun kind => ∀ name ∈ hidden, kind.named? ≠ some name

/-- A hidden name, if there is one, does not stand in some trees. -/
abbrev AllAvoid (hidden : Option String) : List Node → Prop :=
  AllThroughout fun kind => ∀ name ∈ hidden, kind.named? ≠ some name

/-- The same is known in two environments, but for the type of a hidden name. -/
structure TypeEnvironment.AgreeBut (hidden : Option String) (env env' : TypeEnvironment) : Prop where
  typeOf? : ∀ name, name ∉ hidden → env'.typeOf? name = env.typeOf? name
  thisType : env'.thisType = env.thisType
  memberType? : env'.memberType? = env.memberType?
  construct : env'.construct = env.construct

variable {hidden : Option String} {f g : Nat → Nat}

theorem Node.Throughout.unparenthesized {Q : NodeKind → Prop} {n : Node} (h : n.Throughout Q) :
    n.unparenthesized.Throughout Q :=
  h.of_contains (contains_unparenthesized n)

theorem TypeEnvironment.AgreeBut.inBody {env env' : TypeEnvironment} (h : env.AgreeBut hidden env')
    (params : Entries Ty)
    (ownThis : Option Ty) :
    (env.withParameters params ownThis).AgreeBut hidden (env'.withParameters params ownThis) where
  typeOf? name hname := by
    simp only [withParameters, h.typeOf? name hname]
  thisType := by rw [withParameters, withParameters, h.thisType]
  memberType? := h.memberType?
  construct := by rw [withParameters, withParameters, h.construct]

namespace Evaluator

/-- Two ways to evaluate agree on trees that avoid a hidden name, each at its own place. -/
def Alike (hidden : Option String) (f g : Nat → Nat) (e e' : Node → Ty) : Prop :=
  ∀ n : Node, n.Avoids hidden → e' (n.relocate g) = e (n.relocate f)

/-- A way to evaluate sees no difference between two places where the same is known but for a
hidden name. -/
def Blind (hidden : Option String) (f g : Nat → Nat) (eval : Evaluator) : Prop :=
  ∀ {env env' : TypeEnvironment}, env.AgreeBut hidden env' → Alike hidden f g (eval env) (eval env')

/-! ### With the same values for what is inside -/

/-- The element spreads an array into another. -/
def isSpread (n : Node) : Bool :=
  match n.kind with
  | .spread _ => true
  | _ => false

theorem isSpread_relocate (f : Nat → Nat) (n : Node) : isSpread (n.relocate f) = isSpread n := by
  obtain ⟨range, kind⟩ := n
  cases kind <;> rfl

theorem array_relocate (e : Node → Ty) (f : Nat → Nat) (elements : List Node) :
    array e (elements.map (Node.relocate f)) =
      Ty.array (((elements.find? (!isSpread ·)).map fun first => e (first.relocate f)).getD .unknown) := by
  have hspread : (fun n => !isSpread n) ∘ Node.relocate f = fun n => !isSpread n :=
    funext fun n => by rw [Function.comp_apply, isSpread_relocate]
  have hfind : (elements.map (Node.relocate f)).find? (!isSpread ·) =
      (elements.find? (!isSpread ·)).map (Node.relocate f) := by
    rw [List.find?_map, hspread]
  simp only [array]
  split
  · next first hfirst =>
    obtain ⟨n, hn, rfl⟩ := Option.map_eq_some_iff.1 (hfind.symm.trans hfirst)
    rw [hn, Option.map_some, Option.getD_some]
  · next hnone => rw [Option.map_eq_none_iff.1 (hfind.symm.trans hnone), Option.map_none, Option.getD_none]

section

variable {e e' : Node → Ty} (h : Alike hidden f g e e')

include h

theorem Alike.binary (operator : TokenKind) {left right : Node} (hl : left.Avoids hidden) (hr : right.Avoids hidden) :
    binary e' operator (left.relocate g) (right.relocate g) =
      binary e operator (left.relocate f) (right.relocate f) := by
  simp only [Evaluator.binary, h left hl, h right hr]

theorem Alike.unary (operator : UnaryOperator) {argument : Node} (ha : argument.Avoids hidden) :
    unary e' operator (argument.relocate g) = unary e operator (argument.relocate f) := by
  simp only [Evaluator.unary, h argument ha]

theorem Alike.assigned (operator : TokenKind) {target value : Node} (ht : target.Avoids hidden)
    (hv : value.Avoids hidden) :
    assigned e' operator (target.relocate g) (value.relocate g) =
      assigned e operator (target.relocate f) (value.relocate f) := by
  simp only [Evaluator.assigned, h value hv, h.binary _ ht hv]

theorem Alike.array {elements : List Node} (ha : ∀ n ∈ elements, n.Avoids hidden) :
    array e' (elements.map (Node.relocate g)) = array e (elements.map (Node.relocate f)) := by
  rw [array_relocate, array_relocate]
  cases hfirst : elements.find? (!isSpread ·) with
  | none => rfl
  | some first => exact congrArg Ty.array (h first (ha first (List.mem_of_find?_eq_some hfirst)))

theorem Alike.addProperty (entries : Entries Ty) {property : Node} (hp : property.Avoids hidden) :
    addProperty e' entries (property.relocate g) = addProperty e entries (property.relocate f) := by
  obtain ⟨range, kind⟩ := property
  have hc := hp.children
  cases kind with
  | property key value computed shorthand method =>
    simp only [Evaluator.addProperty, Node.relocate, NodeKind.relocate, Node.kind, Node.propertyKey?_relocate,
      h value (hc value (by simp [NodeKind.children]))]
  | spread argument =>
    simp only [Evaluator.addProperty, Node.relocate, NodeKind.relocate, Node.kind,
      h argument (hc argument List.mem_cons_self)]
  | _ => rfl

theorem Alike.member {env env' : TypeEnvironment} (henv : env.AgreeBut hidden env') {object property : Node}
    (computed : Bool) (ho : object.Avoids hidden) :
    member e' env' (object.relocate g) (property.relocate g) computed =
      member e env (object.relocate f) (property.relocate f) computed := by
  simp only [Evaluator.member, h object ho, henv.memberType?, Node.identifier?_relocate,
    Node.unparenthesized_relocate,
    Node.kind_relocate]
  cases property.unparenthesized.kind <;> rfl

theorem Alike.call {callee : Node} (hc : callee.Avoids hidden) :
    call e' (callee.relocate g) = call e (callee.relocate f) := by
  simp only [Evaluator.call, Node.unparenthesized_relocate, h _ hc.unparenthesized, Node.kind_relocate]
  cases callee.unparenthesized.kind <;> rfl

theorem Alike.parameterTypes {params : List Node} (hp : ∀ p ∈ params, p.Avoids hidden) :
    parameterTypes e' (params.map (Node.relocate g)) = parameterTypes e (params.map (Node.relocate f)) := by
  rw [Evaluator.parameterTypes, List.foldl_map, Evaluator.parameterTypes, List.foldl_map]
  refine List.foldl_ext _ _ _ fun bound p hmem => ?_
  obtain ⟨range, kind⟩ := p
  cases kind with
  | parameter name target fallback isRest =>
    cases fallback with
    | none => by_cases hname : name = "" <;> cases isRest <;> simp [Node.relocate, NodeKind.relocate, Node.kind, hname]
    | some value =>
      have hvalue := h value ((hp _ hmem).children value (by simp [NodeKind.children]))
      by_cases hname : name = "" <;> cases isRest <;>
        simp [Node.relocate, NodeKind.relocate, Node.kind, hname, hvalue]
  | _ => rfl

theorem Alike.firstKnown {l : List Node} (hl : ∀ n ∈ l, n.Avoids hidden) :
    firstKnown e' (l.map (Node.relocate g)) = firstKnown e (l.map (Node.relocate f)) := by
  induction l with
  | nil => rfl
  | cons n rest ih =>
    simp only [List.map_cons, Evaluator.firstKnown, h n (hl n List.mem_cons_self),
      ih fun m hm => hl m (List.mem_cons_of_mem _ hm)]

theorem Alike.addField (info : ClassInfo Ty) (key : String) {value : Option Node} (hv : ∀ n ∈ value, n.Avoids hidden)
    (isStatic : Bool) :
    addField e' info key (value.map (Node.relocate g)) isStatic =
      addField e info key (value.map (Node.relocate f)) isStatic := by
  cases value with
  | none => rfl
  | some n => simp only [Evaluator.addField, Option.map_some, h n (hv n rfl)]

end

/-! ### With the same way to evaluate what is inside -/

section

variable {eval : Evaluator} {env env' : TypeEnvironment} (h : Blind hidden f g eval) (henv : env.AgreeBut hidden env')

include h henv

theorem Blind.inBody {params : List Node} (hp : ∀ p ∈ params, p.Avoids hidden) (ownThis : Option Ty) :
    Alike hidden f g (eval (inBody eval env (params.map (Node.relocate f)) ownThis))
      (eval (inBody eval env' (params.map (Node.relocate g)) ownThis)) := by
  rw [Evaluator.inBody, Evaluator.inBody, (h henv).parameterTypes hp]
  exact h (henv.inBody _ ownThis)

theorem Blind.bodyResult {params : List Node} {body : Node} (hp : ∀ p ∈ params, p.Avoids hidden)
    (hb : body.Avoids hidden) (ownThis : Option Ty) :
    bodyResult eval env' (params.map (Node.relocate g)) (body.relocate g) ownThis =
      bodyResult eval env (params.map (Node.relocate f)) (body.relocate f) ownThis := by
  have hknown := (h.inBody henv hp ownThis).firstKnown fun n hn =>
    hb.of_contains (Node.contains_of_mem_returned body hn)
  rw [Evaluator.bodyResult, Evaluator.bodyResult, Node.returned_relocate, Node.returned_relocate]
  cases hreturned : body.returned with
  | nil => rfl
  | cons n rest =>
    rw [hreturned] at hknown
    exact hknown

/-- The type of a function. -/
theorem Blind.functionType {parts : FunctionParts Node} (hp : ∀ n ∈ parts.params ++ [parts.body], n.Avoids hidden)
    (ownThis : Option Ty) :
    functionType eval env' (parts.relocate g) ownThis = functionType eval env (parts.relocate f) ownThis := by
  simp only [Evaluator.functionType, FunctionParts.relocate_eq, Node.parameterNames_relocate,
    h.bodyResult henv (fun p hmem => hp p (List.mem_append_left _ hmem)) (hp parts.body (by simp)) ownThis]

theorem Blind.arrowType {params : List Node} {body : Node} (hp : ∀ n ∈ params ++ [body], n.Avoids hidden) :
    arrowType eval env' (params.map (Node.relocate g)) (body.relocate g) =
      arrowType eval env (params.map (Node.relocate f)) (body.relocate f) := by
  have hparams : ∀ p ∈ params, p.Avoids hidden := fun p hmem => hp p (List.mem_append_left _ hmem)
  have hbody := hp body (by simp)
  simp only [Evaluator.arrowType, Node.parameterNames_relocate, Node.isBlock_relocate,
    h.bodyResult henv hparams hbody none,
    h.inBody henv hparams none body hbody]

theorem Blind.addMethod (info : ClassInfo Ty) (key : String) (kind : MethodKind) (isStatic : Bool)
    {parts : FunctionParts Node} (hp : ∀ n ∈ parts.params ++ [parts.body], n.Avoids hidden) :
    addMethod eval env' info key kind isStatic (parts.relocate g) =
      addMethod eval env info key kind isStatic (parts.relocate f) := by
  have hparams : ∀ p ∈ parts.params, p.Avoids hidden := fun p hmem => hp p (List.mem_append_left _ hmem)
  have hbody := hp parts.body (by simp)
  have hresult := h.bodyResult henv hparams hbody (some (selfType info isStatic))
  have hmethod := h.functionType henv hp (some (selfType info isStatic))
  rw [FunctionParts.relocate_eq, FunctionParts.relocate_eq] at hmethod
  simp only [Evaluator.addMethod, FunctionParts.relocate_eq, hresult, hmethod, Node.selfMembers_relocate,
    List.foldl_map,
    Node.relocateEntry]
  refine List.foldl_ext _ _ _ fun found entry hmem => ?_
  rw [h.inBody henv hparams (some (selfType info isStatic)) entry.2
    (hbody.of_contains (Node.contains_of_mem_selfMembers hmem))]

theorem Blind.addElement (info : ClassInfo Ty) {element : Node} (hn : element.Avoids hidden) :
    addElement eval env' info (element.relocate g) = addElement eval env info (element.relocate f) := by
  obtain ⟨range, kind⟩ := element
  have hc := hn.children
  cases kind with
  | methodMember key kind isStatic value =>
    obtain ⟨valueRange, valueKind⟩ := value
    cases valueKind with
    | functionExpression parts =>
      exact h.addMethod henv info key kind isStatic (hc _ List.mem_cons_self).children
    | _ => rfl
  | fieldMember key value isStatic =>
    simp only [Evaluator.addElement, Node.relocate, NodeKind.relocate, Node.kind, relocateSome_eq_map]
    exact (h henv).addField info key
      (fun n hmem => hc n (by simp [NodeKind.children, Option.mem_def.1 hmem])) isStatic
  | _ => rfl

/-- What is known of a class. -/
theorem Blind.classInfo {parts : ClassParts Node} (hp : ∀ n ∈ parts.members, n.Avoids hidden) (name : String) :
    classInfo eval env' (parts.relocate g) name = classInfo eval env (parts.relocate f) name := by
  have hparent : ∀ place, ((parts.superclass.map (Node.relocate place)).bind fun s => s.unparenthesized.identifier?) =
      parts.superclass.bind fun s => s.unparenthesized.identifier? := by
    intro place
    cases parts.superclass with
    | none => rfl
    | some s => simp
  simp only [Evaluator.classInfo, ClassParts.relocate_eq, hparent, List.foldl_map]
  exact List.foldl_ext _ _ _ fun info n hmem => h.addElement henv info (hp n hmem)

end

/-- **Who sees no difference inside sees none.** -/
theorem Blind.step {eval : Evaluator} (h : Blind hidden f g eval) : Blind hidden f g (step eval) := by
  intro env env' henv n hn
  obtain ⟨range, kind⟩ := n
  have hc := hn.children
  have he := h henv
  cases kind with
  | identifier name =>
    exact congrArg (·.getD Ty.unknown) (henv.typeOf? name fun hname => hn.own name hname rfl)
  | this => exact henv.thisType
  | arrayLiteral elements =>
    simp only [Evaluator.step, Node.relocate, NodeKind.relocate, Node.kind, relocateAll_eq_map]
    exact he.array hc
  | objectLiteral items =>
    simp only [Evaluator.step, Node.relocate, NodeKind.relocate, Node.kind, relocateAll_eq_map, List.foldl_map]
    exact congrArg Ty.shaped (List.foldl_ext _ _ _ fun entries p hp => he.addProperty entries (hc p hp))
  | member object property computed chained => exact he.member henv computed (hc object List.mem_cons_self)
  | call callee arguments chained => exact he.call (hc callee List.mem_cons_self)
  | new callee arguments =>
    simp only [Evaluator.step, Node.relocate, NodeKind.relocate, Node.kind, Node.unparenthesized_relocate,
      Node.identifier?_relocate, henv.construct]
  | binary operator left right =>
    exact he.binary operator (hc left List.mem_cons_self) (hc right (by simp [NodeKind.children]))
  | logical operator left right =>
    simp only [Evaluator.step, Node.relocate, NodeKind.relocate, Node.kind, he left (hc left List.mem_cons_self),
      he right (hc right (by simp [NodeKind.children]))]
  | unary operator argument => exact he.unary operator (hc argument List.mem_cons_self)
  | conditional test consequent alternate =>
    simp only [Evaluator.step, Node.relocate, NodeKind.relocate, Node.kind,
      he consequent (hc consequent (by simp [NodeKind.children])),
        he alternate (hc alternate (by simp [NodeKind.children]))]
  | assignment operator target value =>
    exact he.assigned operator (hc target List.mem_cons_self) (hc value (by simp [NodeKind.children]))
  | sequence items =>
    simp only [Evaluator.step, Node.relocate, NodeKind.relocate, Node.kind, relocateAll_eq_map, List.getLast?_map]
    cases hlast : items.getLast? with
    | none => rfl
    | some last => exact he last (hc last (List.mem_of_getLast? hlast))
  | parenthesized inner => exact he inner (hc inner List.mem_cons_self)
  | arrowFunction params body isAsync =>
    simp only [Evaluator.step, Node.relocate, NodeKind.relocate, Node.kind, relocateAll_eq_map]
    exact h.arrowType henv hc
  | functionExpression parts => exact h.functionType henv hc none
  | classExpression parts =>
    have hname : ∀ place, (parts.relocate place).name = parts.name := fun place => by simp
    have hinfo := h.classInfo henv (fun m hm => hc m (List.mem_append_right _ hm)) (parts.name.getD "")
    simp only [Evaluator.step, Node.relocate, NodeKind.relocate, Node.kind, hname, hinfo]
  | _ => rfl

end Evaluator

/-! ### Evaluation -/

open Evaluator

theorem blind_typeWithin : ∀ depth, Blind hidden f g (Node.typeWithin depth)
  | 0 => fun _ _ _ => rfl
  | depth + 1 => Blind.step (blind_typeWithin depth)

/-- **The type of an expression is the same at two places** where the same is known, but for a name
that is not in it. -/
theorem blind_typeIn : Blind hidden f g Node.typeIn := blind_typeWithin depthLimit

end Typeahead
