/-
# What the binder walks over

The binder's walk over a piece of the tree stays in the space that the piece is spread over.
The cases are those of the binder itself. It takes the pieces of a node in its own order:
a default value before the pattern it is for, what a loop runs over before its variables, the
test of a loop before a body that comes first. The induction is on the size of the nodes, as
a walk over one kind of node comes to all others.

Key definition: `WalksBelow`.
Key theorems: `walks_function`, `walks_classBody`, `walksBelow`.
-/
import Typeahead.Proofs.Scope.Spread
import Typeahead.Proofs.Scope.Walk

namespace Typeahead

open Binder

variable {limit size lo hi most : Nat} {b : Binder}

/-- The binder's walks over nodes smaller than a size stay in their space. -/
structure WalksBelow (limit size : Nat) : Prop where
  expression : ∀ {n lo hi most b}, Spread size lo hi [n] → n.ScopesWithin most →
    Walks limit most lo hi b (Binder.expression n b)
  pattern : ∀ {scope source kind n lo hi most b}, Spread size lo hi [n] → n.PatternWithin most →
    Walks limit most lo hi b (Binder.pattern scope source kind n b)
  statement : ∀ {n lo hi most b}, Spread size lo hi [n] → n.ScopesWithin most →
    Walks limit most lo hi b (Binder.statement n b)

variable (ih : WalksBelow limit size)
include ih

/-! ### Expressions -/

theorem walks_optional {o : Option Node} (h : Spread size lo hi o.toList) (hs : ∀ n ∈ o.toList, n.ScopesWithin most) :
    Walks limit most lo hi b (Binder.optional o b) := by
  cases o with
  | none => exact .same (.rfl b)
  | some n => exact ih.expression h (hs n List.mem_cons_self)

theorem walks_expressions : ∀ {l lo b}, Spread size lo hi l → (∀ n ∈ l, n.ScopesWithin most) →
    Walks limit most lo hi b (expressions l b)
  | [], _, b, _, _ => .same (.rfl b)
  | n :: _, _, _, h, hs => by
    obtain ⟨m, hn, hrest⟩ := h.cons
    exact (ih.expression hn (hs n List.mem_cons_self)).trans
      (walks_expressions hrest fun n hn => hs n (List.mem_cons_of_mem _ hn)) hn.le hrest.le

theorem walks_properties : ∀ {l lo b}, Spread size lo hi l → (∀ n ∈ l, n.ScopesWithin most) →
    Walks limit most lo hi b (properties l b)
  | [], _, b, _, _ => .same (.rfl b)
  | n :: rest, lo, b, h, hs => by
    obtain ⟨m, hn, hrest⟩ := h.cons
    have hothers : ∀ c, Walks limit most m hi c (properties rest c) := fun c =>
      walks_properties hrest fun n hn => hs n (List.mem_cons_of_mem _ hn)
    have hown := hs n List.mem_cons_self
    by_cases hproperty : ∃ r key value computed shorthand method, n = ⟨r, .property key value computed shorthand method⟩
    · obtain ⟨r, key, value, computed, shorthand, method, rfl⟩ := hproperty
      rw [properties]
      refine Walks.trans ?_ (hothers _) hn.le hrest.le
      have hkey : key.ScopesWithin most := hown.of_mem List.mem_cons_self
      have hvalue : value.ScopesWithin most := hown.of_mem (List.mem_cons_of_mem _ List.mem_cons_self)
      have hp := hn.inner
      cases computed with
      | false => exact ih.expression (hp.of_mem (by cases shorthand <;> simp [NodeKind.pieces])) hvalue
      | true =>
        have hpieces : (NodeKind.property key value true shorthand method).pieces = [key, value] := by
          cases shorthand <;> rfl
        rw [hpieces] at hp
        obtain ⟨m', hk, hv⟩ := hp.cons
        exact (ih.expression hk hkey).trans (ih.expression hv hvalue) hk.le hv.le
    · rw [properties]
      · exact (ih.expression hn hown).trans (hothers _) hn.le hrest.le
      · exact fun r key value computed shorthand method he => hproperty ⟨r, key, value, computed, shorthand, method, he⟩

theorem walks_statements : ∀ {l lo b}, Spread size lo hi l → (∀ n ∈ l, n.ScopesWithin most) →
    Walks limit most lo hi b (statements l b)
  | [], _, b, _, _ => .same (.rfl b)
  | n :: _, _, _, h, hs => by
    obtain ⟨m, hn, hrest⟩ := h.cons
    exact (ih.statement hn (hs n List.mem_cons_self)).trans
      (walks_statements hrest fun n hn => hs n (List.mem_cons_of_mem _ hn)) hn.le hrest.le

theorem walks_optionalStatement {o : Option Node} (h : Spread size lo hi o.toList)
    (hs : ∀ n ∈ o.toList, n.ScopesWithin most) : Walks limit most lo hi b (optionalStatement o b) := by
  cases o with
  | none => exact .same (.rfl b)
  | some n => exact ih.statement h (hs n List.mem_cons_self)

/-- The statements of a block whose functions are declared first. -/
theorem walks_hoisted {range : TextRange} {body : List Node} (h : Spread size lo hi [⟨range, .block body⟩])
    (hs : Node.ScopesWithin most ⟨range, .block body⟩) :
    Walks limit most lo hi b (statements body (b.hoist body)) :=
  .after_same (.hoist b body) (walks_statements ih h.inner fun _ hn => hs.of_mem hn)

/-! ### Patterns and parameters -/

theorem walks_propertyPatterns {scope : ScopeId} {source : Option Ty} {kind : SymbolKind} : ∀ {l lo b},
    Spread size lo hi l → (∀ n ∈ l, ∀ m ∈ n.unpackedItem, m.ScopesWithin most) →
    Walks limit most lo hi b (propertyPatterns scope source kind l b)
  | [], _, b, _, _ => .same (.rfl b)
  | n :: rest, lo, b, h, hs => by
    obtain ⟨m, hn, hrest⟩ := h.cons
    have hothers : ∀ c, Walks limit most m hi c (propertyPatterns scope source kind rest c) := fun c =>
      walks_propertyPatterns hrest fun n hn => hs n (List.mem_cons_of_mem _ hn)
    have hown := hs n List.mem_cons_self
    by_cases hproperty : ∃ r key value computed shorthand method, n = ⟨r, .property key value computed shorthand method⟩
    · obtain ⟨r, key, value, computed, shorthand, method, rfl⟩ := hproperty
      have hvalue := hn.inner.of_mem (n := value) (by cases shorthand <;> cases computed <;> simp [NodeKind.pieces])
      rw [propertyPatterns]
      refine Walks.trans ?_ (hothers _) hn.le hrest.le
      by_cases hmethod : ∃ r' parts, value = ⟨r', .functionExpression parts⟩
      · obtain ⟨r', parts, rfl⟩ := hmethod
        exact .same (.rfl b)
      · refine ih.pattern hvalue (Node.ScopesWithin.patternWithin (hown value ?_))
        rw [Node.unpackedItem]
        · exact List.mem_singleton.2 rfl
        · exact fun r' parts he => hmethod ⟨r', parts, he⟩
    · by_cases hspread : ∃ r argument, n = ⟨r, .spread argument⟩
      · obtain ⟨r, argument, rfl⟩ := hspread
        have hargument : argument.ScopesWithin most := hown argument List.mem_cons_self
        exact (ih.pattern hn.inner hargument.patternWithin).trans (hothers _) hn.le hrest.le
      · rw [propertyPatterns]
        · exact (hothers b).mono (Nat.le_refl _) hn.le (Nat.le_refl _)
        · exact fun r key value computed shorthand method he =>
            hproperty ⟨r, key, value, computed, shorthand, method, he⟩
        · exact fun r argument he => hspread ⟨r, argument, he⟩

theorem walks_elementPatterns {scope : ScopeId} {element : Option Ty} {kind : SymbolKind} : ∀ {l lo b},
    Spread size lo hi l → (∀ n ∈ l, n.ScopesWithin most) →
    Walks limit most lo hi b (elementPatterns scope element kind l b)
  | [], _, b, _, _ => .same (.rfl b)
  | n :: rest, lo, b, h, hs => by
    obtain ⟨m, hn, hrest⟩ := h.cons
    have hothers : ∀ c, Walks limit most m hi c (elementPatterns scope element kind rest c) := fun c =>
      walks_elementPatterns hrest fun n hn => hs n (List.mem_cons_of_mem _ hn)
    have hown := hs n List.mem_cons_self
    by_cases hspread : ∃ r argument, n = ⟨r, .spread argument⟩
    · obtain ⟨r, argument, rfl⟩ := hspread
      have hargument : argument.ScopesWithin most := hown.of_mem List.mem_cons_self
      exact (ih.pattern hn.inner hargument.patternWithin).trans (hothers _) hn.le hrest.le
    · rw [elementPatterns]
      · exact (ih.pattern hn hown.patternWithin).trans (hothers _) hn.le hrest.le
      · exact fun r argument he => hspread ⟨r, argument, he⟩

theorem walks_parameters : ∀ {l lo b}, Spread size lo hi l → (∀ n ∈ l, n.ScopesWithin most) →
    Walks limit most lo hi b (parameters l b)
  | [], _, b, _, _ => .same (.rfl b)
  | n :: rest, lo, b, h, hs => by
    obtain ⟨m, hn, hrest⟩ := h.cons
    have hothers : ∀ c, Walks limit most m hi c (parameters rest c) := fun c =>
      walks_parameters hrest fun n hn => hs n (List.mem_cons_of_mem _ hn)
    have hown := hs n List.mem_cons_self
    by_cases hparameter : ∃ r name target fallback isRest, n = ⟨r, .parameter name target fallback isRest⟩
    · obtain ⟨r, name, target, fallback, isRest, rfl⟩ := hparameter
      obtain ⟨m', htarget, hfallback⟩ := hn.inner.append
      have hfirst := walks_optional ih (b := b) hfallback fun n hn => hown.of_mem (List.mem_append_right _ hn)
      cases target with
      | some target =>
        have hpattern : target.PatternWithin most := fun m hm =>
          hown.of_mem (List.mem_append_left _ (List.mem_flatMap.2 ⟨target, List.mem_cons_self, hm⟩))
        rw [parameters]
        exact (hfirst.back (ih.pattern htarget hpattern) htarget.le hfallback.le).trans (hothers _) hn.le hrest.le
      | none =>
        rw [parameters]
        exact ((hfirst.before_same (.declare ..) hfallback.le).mono (Nat.le_refl _) htarget.le (Nat.le_refl _)).trans
          (hothers _) hn.le hrest.le
    · rw [parameters]
      · exact (hothers b).mono (Nat.le_refl _) hn.le (Nat.le_refl _)
      · exact fun r name target fallback isRest he => hparameter ⟨r, name, target, fallback, isRest, he⟩

/-! ### Functions and classes -/

theorem walks_function {parts : FunctionParts Node} {symbol : Option Symbol} {isStatic : Bool}
    (h : Spread size lo hi (parts.params ++ [parts.body])) (hs : ∀ n ∈ parts.params ++ [parts.body], n.ScopesWithin most) :
    Walks limit (most + 1) lo hi b (function parts lo symbol isStatic b) := by
  obtain ⟨name, params, body, isAsync⟩ := parts
  obtain ⟨m, hparams, hbody⟩ := h.append
  have hin := hs body (List.mem_append_right params (List.mem_singleton.2 rfl))
  have hfirst := walks_parameters ih (b := (b.enter .function lo).setFunction symbol isStatic)
    hparams fun n hn => hs n (List.mem_append_left _ hn)
  have hstop : body.stop ≤ hi := (hbody.within body (List.mem_singleton.2 rfl)).stop_le
  by_cases hblock : ∃ r body', body = ⟨r, .block body'⟩
  · obtain ⟨r, body', rfl⟩ := hblock
    rw [function]
    exact .scope (.after_same (.setFunction _ _ _) (hfirst.trans (walks_hoisted ih hbody hin) hparams.le hbody.le))
      (Nat.le_refl _) h.le hstop
  · rw [function]
    · exact .scope (.after_same (.setFunction _ _ _) (hfirst.trans (ih.statement hbody hin) hparams.le hbody.le))
        (Nat.le_refl _) h.le hstop
    · exact fun r body' he => hblock ⟨r, body', he⟩

theorem walks_classElements : ∀ {l lo b}, Spread size lo hi l → (∀ n ∈ l, n.ScopesWithin most) →
    Walks limit most lo hi b (classElements l b)
  | [], _, b, _, _ => .same (.rfl b)
  | n :: rest, lo, b, h, hs => by
    obtain ⟨m, hn, hrest⟩ := h.cons
    have hothers : ∀ c, Walks limit most m hi c (classElements rest c) := fun c =>
      walks_classElements hrest fun n hn => hs n (List.mem_cons_of_mem _ hn)
    have hown := hs n List.mem_cons_self
    by_cases hmethod : ∃ r key kind isStatic r' parts,
        n = ⟨r, .methodMember key kind isStatic ⟨r', .functionExpression parts⟩⟩
    · obtain ⟨r, key, kind, isStatic, r', parts, rfl⟩ := hmethod
      have hvalue : Spread size lo m [⟨r', .functionExpression parts⟩] := hn.inner
      have hwithin : Node.ScopesWithin most ⟨r', .functionExpression parts⟩ := hown.of_mem List.mem_cons_self
      obtain ⟨k, rfl, hscoped⟩ := hwithin.of_scope rfl
      rw [classElements]
      exact ((walks_function ih (hvalue.pieces (Nat.le_succ _)) hscoped).mono (Nat.le_refl _) hvalue.lo_le
        (Nat.le_refl m)).trans (hothers _) hn.le hrest.le
    · by_cases hfield : ∃ r key value isStatic, n = ⟨r, .fieldMember key value isStatic⟩
      · obtain ⟨r, key, value, isStatic, rfl⟩ := hfield
        rw [classElements]
        exact (walks_optional ih hn.inner fun n hn => hown.of_mem hn).trans (hothers _) hn.le hrest.le
      · rw [classElements]
        · exact (hothers b).mono (Nat.le_refl _) hn.le (Nat.le_refl _)
        · exact fun r key kind isStatic r' parts he => hmethod ⟨r, key, kind, isStatic, r', parts, he⟩
        · exact fun r key value isStatic he => hfield ⟨r, key, value, isStatic, he⟩

/-- The scope of a class starts at its braces, behind the superclass. -/
theorem walks_classBody {range : TextRange} {parts : ClassParts Node} {symbol : Symbol}
    (h : Spread size range.start hi (parts.superclass.toList ++ parts.members))
    (hb : (NodeKind.classExpression parts).Braced range) (hstop : parts.bodyRange.stop ≤ hi)
    (hsuper : ∀ n ∈ parts.superclass, n.ScopesWithin (most + 1)) (hmembers : ∀ n ∈ parts.members, n.ScopesWithin most) :
    Walks limit (most + 1) range.start hi b (classBody parts symbol b) := by
  obtain ⟨name, superclass, members, bodyRange⟩ := parts
  obtain ⟨hstart, hopen, hbefore, hbehind⟩ := hb
  obtain ⟨m, hfirst, hrest⟩ := h.append
  have hle : bodyRange.start ≤ hi := Nat.le_trans (Nat.le_of_lt hopen) hstop
  have hfirst' : Spread size range.start bodyRange.start superclass.toList :=
    { hfirst with le := hstart, within := fun n hn => hbefore n (Option.mem_toList.1 hn) }
  have hrest' : Spread size bodyRange.start hi members :=
    { hrest with le := hle, inOrder := ⟨hbehind, hrest.inOrder.apart⟩ }
  rw [classBody]
  refine (walks_optional ih hfirst' fun n hn => hsuper n (Option.mem_toList.1 hn)).trans ?_ hstart hle
  exact .scope (.after_same ((SameOutline.declareMembers _ symbol).trans (.setClass _ symbol))
    (walks_classElements ih hrest' hmembers)) (Nat.le_refl _) hle hstop

/-! ### Declarations -/

theorem walks_parenthesizedClass {symbol : Symbol} : ∀ {n lo most b}, Spread size lo hi [n] → n.ScopesWithin most →
    Walks limit most lo hi b (parenthesizedClass symbol n b)
  | ⟨range, kind⟩, lo, most, b, h, hs => by
    cases kind with
    | parenthesized inner => exact walks_parenthesizedClass (n := inner) h.inner (hs.of_mem List.mem_cons_self)
    | classExpression parts =>
      obtain ⟨k, rfl, hscoped⟩ := hs.of_scope rfl
      exact (walks_classBody ih (h.pieces (Nat.le_succ _)) h.braced ((h.within _ List.mem_cons_self).body_le rfl)
        (fun n hn => hs.of_superclass hn) hscoped).mono (Nat.le_refl _) h.lo_le (Nat.le_refl _)
    | _ => exact .same (.rfl b)

theorem walks_declarators {kind : VariableKind} : ∀ {l lo b}, Spread size lo hi l → (∀ n ∈ l, n.ScopesWithin most) →
    Walks limit most lo hi b (declarators kind l b)
  | [], _, b, _, _ => .same (.rfl b)
  | n :: rest, lo, b, h, hs => by
    obtain ⟨m, hn, hrest⟩ := h.cons
    have hothers : ∀ c, Walks limit most m hi c (declarators kind rest c) := fun c =>
      walks_declarators hrest fun n hn => hs n (List.mem_cons_of_mem _ hn)
    have hown := hs n List.mem_cons_self
    by_cases hdeclarator : ∃ r target init, n = ⟨r, .variableDeclarator target init⟩
    · obtain ⟨r, target, init, rfl⟩ := hdeclarator
      obtain ⟨m', htarget, hinit⟩ := hn.inner.cons
      have hvalue : ∀ n ∈ init.toList, n.ScopesWithin most := fun n hn => hown.of_mem (List.mem_append_right _ hn)
      have hclass : ∀ symbol c, Walks limit most lo m c (classValue symbol init c) := by
        intro symbol c
        cases init with
        | none => exact .same (.rfl c)
        | some value =>
          exact (walks_parenthesizedClass ih hinit (hvalue value List.mem_cons_self)).mono (Nat.le_refl _)
            htarget.le (Nat.le_refl _)
      rw [declarators]
      split
      · exact Walks.trans (.after_same (.declare ..) (hclass _ _)) (hothers _) hn.le hrest.le
      · exact ((ih.pattern htarget fun m hm => hown.of_mem (List.mem_append_left _ hm)).trans
          (walks_optional ih hinit hvalue) htarget.le hinit.le).trans (hothers _) hn.le hrest.le
    · rw [declarators]
      · exact (hothers b).mono (Nat.le_refl _) hn.le (Nat.le_refl _)
      · exact fun r target init he => hdeclarator ⟨r, target, init, he⟩

theorem walks_loopStart {init : Option Node} (h : Spread size lo hi init.toList)
    (hs : ∀ n ∈ init.toList, n.ScopesWithin most) : Walks limit most lo hi b (loopStart init b) := by
  cases init with
  | none => exact .same (.rfl b)
  | some n =>
    by_cases hvariables : ∃ r kind declarations, n = ⟨r, .variableDeclaration kind declarations⟩
    · obtain ⟨r, kind, declarations, rfl⟩ := hvariables
      exact walks_declarators ih h.inner fun n hn => (hs _ List.mem_cons_self).of_mem hn
    · rw [loopStart]
      · exact ih.expression h (hs n List.mem_cons_self)
      · exact fun r kind declarations he => hvariables ⟨r, kind, declarations, he⟩

theorem walks_loopTargets {scope : ScopeId} {iterated : Ty} {kind : VariableKind} : ∀ {l lo b},
    Spread size lo hi l → (∀ n ∈ l, n.ScopesWithin most) →
    Walks limit most lo hi b (loopTargets scope iterated kind l b)
  | [], _, b, _, _ => .same (.rfl b)
  | n :: rest, lo, b, h, hs => by
    obtain ⟨m, hn, hrest⟩ := h.cons
    have hothers : ∀ c, Walks limit most m hi c (loopTargets scope iterated kind rest c) := fun c =>
      walks_loopTargets hrest fun n hn => hs n (List.mem_cons_of_mem _ hn)
    have hown := hs n List.mem_cons_self
    by_cases hdeclarator : ∃ r target init, n = ⟨r, .variableDeclarator target init⟩
    · obtain ⟨r, target, init, rfl⟩ := hdeclarator
      obtain ⟨m', htarget, hinit⟩ := hn.inner.cons
      exact ((ih.pattern htarget fun m hm => hown.of_mem (List.mem_append_left _ hm)).mono (Nat.le_refl _)
        (Nat.le_refl _) hinit.le).trans (hothers _) hn.le hrest.le
    · rw [loopTargets]
      · exact (hothers b).mono (Nat.le_refl _) hn.le (Nat.le_refl _)
      · exact fun r target init he => hdeclarator ⟨r, target, init, he⟩

/-! ### Statements -/

theorem walks_cases : ∀ {l lo b}, Spread size lo hi l → (∀ n ∈ l, n.ScopesWithin most) →
    Walks limit most lo hi b (Binder.cases l b)
  | [], _, b, _, _ => .same (.rfl b)
  | n :: rest, lo, b, h, hs => by
    obtain ⟨m, hn, hrest⟩ := h.cons
    have hothers : ∀ c, Walks limit most m hi c (Binder.cases rest c) := fun c =>
      walks_cases hrest fun n hn => hs n (List.mem_cons_of_mem _ hn)
    have hown := hs n List.mem_cons_self
    by_cases hcase : ∃ r test consequent, n = ⟨r, .switchCase test consequent⟩
    · obtain ⟨r, test, consequent, rfl⟩ := hcase
      obtain ⟨m', htest, hconsequent⟩ := hn.inner.append
      rw [Binder.cases]
      refine Walks.trans ?_ (hothers _) hn.le hrest.le
      exact (walks_optional ih htest fun n hn => hown.of_mem (List.mem_append_left _ hn)).trans
        (.after_same (.hoist _ consequent) (walks_statements ih hconsequent fun n hn =>
          hown.of_mem (List.mem_append_right _ hn))) htest.le hconsequent.le
    · rw [Binder.cases]
      · exact (hothers b).mono (Nat.le_refl _) hn.le (Nat.le_refl _)
      · exact fun r test consequent he => hcase ⟨r, test, consequent, he⟩

theorem walks_catchClause {handler : Option Node} (h : Spread size lo hi handler.toList)
    (hs : ∀ n ∈ handler.toList, n.ScopesWithin most) : Walks limit most lo hi b (catchClause handler b) := by
  by_cases hcatch : ∃ r param r' body, handler = some ⟨r, .catchClause param ⟨r', .block body⟩⟩
  · obtain ⟨r, param, r', body, rfl⟩ := hcatch
    have hclause : Spread size lo hi [⟨r, .catchClause param ⟨r', .block body⟩⟩] := h
    obtain ⟨k, rfl, hscoped⟩ := (hs _ List.mem_cons_self).of_scope rfl
    rw [catchClause]
    exact .scope (.after_same (.declare ..) (walks_hoisted ih (hclause.pieces (Nat.le_succ _))
      (hscoped _ List.mem_cons_self))) hclause.lo_le hclause.start_le hclause.stop_le
  · rw [catchClause]
    · exact .same (.rfl b)
    · exact fun r param r' body he => hcatch ⟨r, param, r', body, he⟩

/-! ### All nodes -/

theorem walks_pattern {scope : ScopeId} {source : Option Ty} {kind : SymbolKind} {n : Node}
    (h : Spread (size + 1) lo hi [n]) (hs : n.PatternWithin most) :
    Walks limit most lo hi b (pattern scope source kind n b) := by
  obtain ⟨range, nodeKind⟩ := n
  have hp := (h.pieces (Nat.le_refl _)).mono h.lo_le (Nat.le_refl hi)
  cases nodeKind with
  | identifier name => exact .same (.declare ..)
  | objectLiteral items =>
    exact walks_propertyPatterns ih hp fun n hn m hm => hs m (List.mem_flatMap.2 ⟨n, hn, hm⟩)
  | arrayLiteral items => exact walks_elementPatterns ih hp fun n hn => (hs _ List.mem_cons_self).of_mem hn
  | assignment operator target value =>
    have hown := hs _ List.mem_cons_self
    obtain ⟨m, htarget, hvalue⟩ := hp.cons
    have hscopes : target.ScopesWithin most := hown.of_mem List.mem_cons_self
    exact (ih.expression hvalue (hown.of_mem (List.mem_cons_of_mem _ List.mem_cons_self))).back
      (ih.pattern htarget hscopes.patternWithin) htarget.le hvalue.le
  | _ => exact .same (.rfl b)

theorem walks_expression {n : Node} (h : Spread (size + 1) lo hi [n]) (hs : n.ScopesWithin most) :
    Walks limit most lo hi b (expression n b) := by
  obtain ⟨range, kind⟩ := n
  have hp := h.pieces (Nat.le_refl _)
  have hone : ∀ {x : Node} {c : Binder}, kind.pieces = [x] → kind.counted = [x] →
      Walks limit most range.start hi c (expression x c) := by
    intro x c hpieces hcounted
    exact ih.expression (hpieces ▸ hp) (hs.of_mem (by simp [hcounted]))
  have htwo : ∀ {x y : Node} {c : Binder}, kind.pieces = [x, y] → kind.counted = [x, y] →
      Walks limit most range.start hi c (expression y (expression x c)) := by
    intro x y c hpieces hcounted
    rw [hpieces] at hp
    obtain ⟨m, hx, hy⟩ := hp.cons
    exact (ih.expression hx (hs.of_mem (by simp [hcounted]))).trans
      (ih.expression hy (hs.of_mem (by simp [hcounted]))) hx.le hy.le
  have hcall : ∀ {x : Node} {l : List Node} {c : Binder}, kind.pieces = x :: l → kind.counted = x :: l →
      Walks limit most range.start hi c (expressions l (expression x c)) := by
    intro x l c hpieces hcounted
    rw [hpieces] at hp
    obtain ⟨m, hx, hl⟩ := hp.cons
    exact (ih.expression hx (hs.of_mem (by simp [hcounted]))).trans
      (walks_expressions ih hl fun n hn => hs.of_mem (by simp [hcounted, hn])) hx.le hl.le
  refine Walks.mono ?_ (Nat.le_refl _) h.lo_le (Nat.le_refl hi)
  cases kind with
  | arrowFunction params body isAsync =>
    obtain ⟨k, rfl, hscoped⟩ := hs.of_scope rfl
    obtain ⟨m, hparams, hbody⟩ := hp.append
    have hin := hscoped body (List.mem_append_right params (List.mem_singleton.2 rfl))
    have hfirst := walks_parameters ih (b := b.enter .arrow range.start) hparams
      fun n hn => hscoped n (List.mem_append_left _ hn)
    by_cases hblock : ∃ r body', body = ⟨r, .block body'⟩
    · obtain ⟨r, body', rfl⟩ := hblock
      rw [expression]
      exact .scope (hfirst.trans (walks_hoisted ih hbody hin) hparams.le hbody.le) (Nat.le_refl _) hp.le h.stop_le
    · rw [expression]
      · exact .scope (hfirst.trans (ih.expression hbody hin) hparams.le hbody.le) (Nat.le_refl _) hp.le h.stop_le
      · exact fun r body' he => hblock ⟨r, body', he⟩
  | functionExpression parts =>
    obtain ⟨k, rfl, hscoped⟩ := hs.of_scope rfl
    rw [expression]
    split
    · exact .before_same (walks_function ih hp hscoped) (.define _ _ _) hp.le
    · exact walks_function ih hp hscoped
  | classExpression parts =>
    obtain ⟨k, rfl, hscoped⟩ := hs.of_scope rfl
    exact walks_classBody ih hp h.braced ((h.within _ List.mem_cons_self).body_le rfl)
      (fun n hn => hs.of_superclass hn) hscoped
  | member object property computed chained =>
    rw [expression]
    split
    · exact htwo rfl rfl
    · obtain ⟨m, hobject, hproperty⟩ := hp.cons
      exact (ih.expression hobject (hs.of_mem List.mem_cons_self)).mono (Nat.le_refl _) (Nat.le_refl _) hproperty.le
  | call callee arguments chained => exact hcall rfl rfl
  | new callee arguments => exact hcall rfl rfl
  | binary operator left right => exact htwo rfl rfl
  | logical operator left right => exact htwo rfl rfl
  | assignment operator left right => exact htwo rfl rfl
  | unary _ argument => exact hone (x := argument) rfl rfl
  | update _ _ argument => exact hone (x := argument) rfl rfl
  | spread argument => exact hone (x := argument) rfl rfl
  | parenthesized inner => exact hone (x := inner) rfl rfl
  | conditional test consequent alternate => exact hcall (l := [consequent, alternate]) rfl rfl
  | sequence items => exact walks_expressions ih hp fun n hn => hs.of_mem hn
  | arrayLiteral items => exact walks_expressions ih hp fun n hn => hs.of_mem hn
  | objectLiteral items => exact walks_properties ih hp fun n hn => hs.of_mem hn
  | _ => exact .same (.rfl b)

theorem walks_statement {n : Node} (h : Spread (size + 1) lo hi [n]) (hs : n.ScopesWithin most) :
    Walks limit most lo hi b (statement n b) := by
  obtain ⟨range, kind⟩ := n
  have hp := h.pieces (Nat.le_refl _)
  refine Walks.mono ?_ (Nat.le_refl _) h.lo_le (Nat.le_refl hi)
  cases kind with
  | variableDeclaration kind declarations => exact walks_declarators ih hp fun n hn => hs.of_mem hn
  | functionDeclaration parts =>
    obtain ⟨k, rfl, hscoped⟩ := hs.of_scope rfl
    rw [statement]
    split
    · exact .before_same (walks_function ih hp hscoped) (.refineResult ..) hp.le
    · exact walks_function ih hp hscoped
  | classDeclaration parts =>
    obtain ⟨k, rfl, hscoped⟩ := hs.of_scope rfl
    exact .after_same (.declare ..) (walks_classBody ih hp h.braced ((h.within _ List.mem_cons_self).body_le rfl)
      (fun n hn => hs.of_superclass hn) hscoped)
  | expressionStatement n =>
    have hwalk := ih.expression (b := b) hp (hs.of_mem List.mem_cons_self)
    rw [statement]
    split
    · exact .before_same hwalk (.trackAssignment ..) hp.le
    · exact hwalk
  | «return» argument => exact walks_optional ih hp fun n hn => hs.of_mem hn
  | throw argument => exact ih.expression hp (hs.of_mem List.mem_cons_self)
  | block body =>
    obtain ⟨k, rfl, hscoped⟩ := hs.of_scope rfl
    exact .scope (.after_same (.hoist _ body) (walks_statements ih hp hscoped)) (Nat.le_refl _) hp.le h.stop_le
  | «if» test consequent alternate =>
    obtain ⟨m, htest, hbranches⟩ := hp.cons
    obtain ⟨m', hconsequent, halternate⟩ := hbranches.cons
    exact (ih.expression htest (hs.of_mem List.mem_cons_self)).trans
      ((ih.statement hconsequent (hs.of_mem (by simp [NodeKind.counted, NodeKind.children]))).trans
        (walks_optionalStatement ih halternate fun n hn =>
          hs.of_mem (List.mem_cons_of_mem _ (List.mem_cons_of_mem _ hn)))
        hconsequent.le halternate.le) htest.le hbranches.le
  | «while» test body =>
    obtain ⟨m, htest, hbody⟩ := hp.cons
    exact (ih.expression htest (hs.of_mem List.mem_cons_self)).trans
      (ih.statement hbody (hs.of_mem (List.mem_cons_of_mem _ List.mem_cons_self))) htest.le hbody.le
  | doWhile body test =>
    obtain ⟨m, hbody, htest⟩ := hp.cons
    exact (ih.expression htest (hs.of_mem List.mem_cons_self)).back
      (ih.statement hbody (hs.of_mem (List.mem_cons_of_mem _ List.mem_cons_self))) hbody.le htest.le
  | «for» init test update body =>
    obtain ⟨k, rfl, hscoped⟩ := hs.of_scope rfl
    have hmem : ∀ n ∈ init.toList ++ test.toList ++ update.toList ++ [body], n.ScopesWithin k := hscoped
    have hp' : Spread size range.start hi (init.toList ++ test.toList ++ update.toList ++ [body]) := hp
    obtain ⟨m, hhead, hbody⟩ := hp'.append
    obtain ⟨m', hfirst, hupdate⟩ := hhead.append
    obtain ⟨m'', hinit, htest⟩ := hfirst.append
    refine .scope (Walks.trans (Walks.trans (Walks.trans (walks_loopStart ih hinit ?_) (walks_optional ih htest ?_)
      hinit.le htest.le) (walks_optional ih hupdate ?_) hfirst.le hupdate.le) (ih.statement hbody ?_)
      hhead.le hbody.le) (Nat.le_refl _) hp.le h.stop_le
    · exact fun n hn => hmem n (by simp [Option.mem_toList.1 hn])
    · exact fun n hn => hmem n (by simp [Option.mem_toList.1 hn])
    · exact fun n hn => hmem n (by simp [Option.mem_toList.1 hn])
    · exact hmem body (by simp)
  | forInOf left right body isOf =>
    obtain ⟨k, rfl, hscoped⟩ := hs.of_scope rfl
    obtain ⟨m, hleft, hrest⟩ := hp.cons
    obtain ⟨m', hright, hbody⟩ := hrest.cons
    have hmem : left.ScopesWithin k ∧ right.ScopesWithin k ∧ body.ScopesWithin k := by
      simpa [NodeKind.scoped, NodeKind.counted, NodeKind.children] using hscoped
    have hvalue := ih.expression (b := b.enter .block range.start) hright hmem.2.1
    have hbody' : ∀ c, Walks limit k m' hi c (statement body c) := fun c => ih.statement hbody hmem.2.2
    have hle : range.start ≤ m' := Nat.le_trans hleft.le hright.le
    by_cases hvariables : ∃ r kind declarations, left = ⟨r, .variableDeclaration kind declarations⟩
    · obtain ⟨r, kind, declarations, rfl⟩ := hvariables
      rw [statement]
      exact .scope ((hvalue.back (walks_loopTargets ih hleft.inner fun n hn => hmem.1.of_mem hn) hleft.le
        hright.le).trans (hbody' _) hle hbody.le) (Nat.le_refl _) hp.le h.stop_le
    · rw [statement]
      · exact .scope ((hvalue.back (ih.expression hleft hmem.1) hleft.le hright.le).trans (hbody' _) hle hbody.le)
          (Nat.le_refl _) hp.le h.stop_le
      · exact fun r kind declarations he => hvariables ⟨r, kind, declarations, he⟩
  | switch discriminant branches =>
    obtain ⟨k, rfl, hscoped⟩ := hs.of_scope rfl
    obtain ⟨m, hdiscriminant, hbranches⟩ := hp.cons
    have hplain : discriminant.ScopesWithin 0 := (hscoped discriminant List.mem_cons_self).zero
      (h.plain _ List.mem_cons_self _ (.self _) discriminant rfl)
    refine Walks.after_quiet (ih.expression hdiscriminant hplain) ?_ (Nat.le_refl _) hbranches.le
    exact .scope ((walks_cases ih hbranches fun n hn => hscoped n (List.mem_cons_of_mem _ hn)).mono (Nat.le_refl _)
      hdiscriminant.le (Nat.le_refl _)) (Nat.le_refl _) hp.le h.stop_le
  | «try» tried handler finalizer =>
    obtain ⟨m, htried, hrest⟩ := hp.cons
    obtain ⟨m', hhandler, hfinalizer⟩ := hrest.append
    exact (ih.statement htried (hs.of_mem List.mem_cons_self)).trans
      ((walks_catchClause ih hhandler fun n hn => hs.of_mem (List.mem_cons_of_mem _ (List.mem_append_left _ hn))).trans
        (walks_optionalStatement ih hfinalizer fun n hn =>
          hs.of_mem (List.mem_cons_of_mem _ (List.mem_append_right _ hn))) hhandler.le hfinalizer.le)
      htried.le hrest.le
  | _ => exact .same (.rfl b)

omit ih

/-- **Every walk of the binder stays in the space of what it walks over.** -/
theorem walksBelow : ∀ size, WalksBelow limit size
  | 0 =>
    { expression := fun h _ => absurd (h.small _ List.mem_cons_self) (Nat.not_lt_zero _)
      pattern := fun h _ => absurd (h.small _ List.mem_cons_self) (Nat.not_lt_zero _)
      statement := fun h _ => absurd (h.small _ List.mem_cons_self) (Nat.not_lt_zero _) }
  | size + 1 =>
    { expression := walks_expression (walksBelow size)
      pattern := walks_pattern (walksBelow size)
      statement := walks_statement (walksBelow size) }

end Typeahead
