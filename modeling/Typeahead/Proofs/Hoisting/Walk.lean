/-
# A tree is bound in step

What the binder does with a tree it does in step at two places of a text: from states in step it
comes to states in step, if the name of which not the same is known does not stand in the tree.

Key theorems: `paired_statement`, `paired_statements`.
-/
import Typeahead.Proofs.Hoisting.Lockstep

namespace Typeahead

open Binder ScopeTree

variable {p : Pace}

theorem Node.contains_classExpression? {n : Node} {parts : ClassParts Node} (h : n.classExpression? = some parts) :
    ∃ range, n.Contains ⟨range, .classExpression parts⟩ := by
  have hcontains := contains_unparenthesized n
  rw [classExpression?] at h
  generalize n.unparenthesized = m at h hcontains
  obtain ⟨range, kind⟩ := m
  cases kind with
  | classExpression own =>
    cases h
    exact ⟨range, hcontains⟩
  | _ => cases h

/-- What is so throughout a value is so throughout the members of the class that it is. -/
theorem AllThroughout.members {Q : NodeKind → Prop} {init : Option Node} {parts : ClassParts Node}
    (h : AllThroughout Q init.toList) (hparts : init.bind (·.classExpression?) = some parts) :
    AllThroughout Q parts.members := by
  obtain ⟨n, rfl, hclass⟩ := Option.bind_eq_some_iff.1 hparts
  obtain ⟨range, hcontains⟩ := Node.contains_classExpression? hclass
  exact (h.head.of_contains hcontains).children.right

mutual
/-- **A statement is bound in step.** -/
theorem paired_statement : ∀ (n : Node) {b b' : Binder}, n.Avoids p.hidden → Paired p b b' →
    Paired p (statement (n.relocate p.near) b) (statement (n.relocate p.far) b')
  | ⟨range, kind⟩, b, b', hn, h => by
    have hc : AllAvoid p.hidden kind.children := hn.children
    cases kind with
    | variableDeclaration kind declarations => exact paired_declarators kind declarations hc h
    | functionDeclaration parts =>
      have hbody := hc.right.head
      obtain ⟨name, params, body, isAsync⟩ := parts
      cases name with
      | none => exact paired_function ⟨none, params, body, isAsync⟩ range.start rfl false hc h
      | some name =>
        have hbound := paired_function ⟨some name, params, body, isAsync⟩ range.start
          (h.isSome_resolve? name) false hc h
        have hrefined := hbound.refineResult b.current (Paired.not_hidden hn name rfl) h.first
          ⟨some name, params, body, isAsync⟩ hbody
        rw [h.shift_size, ← h.current] at hrefined
        exact hrefined
    | classDeclaration parts =>
      have hsymbol := h.classSymbol hc.right (parts.name.getD "")
      obtain ⟨name, superclass, members, bodyRange⟩ := parts
      let parts : ClassParts Node := ⟨name, superclass, members, bodyRange⟩
      have hdeclared : Paired p
          (b.declare b.current (name.getD "") .classType (b.classSymbol (parts.relocate p.near) (name.getD "")).type)
          (b'.declare b'.current (name.getD "") .classType (b'.classSymbol (parts.relocate p.far) (name.getD "")).type) := by
        cases hname : name with
        | none => exact h
        | some own =>
          subst hname
          exact h.declare h.current own .classType (congrArg Symbol.type hsymbol)
            fun _ => Paired.not_hidden hn own rfl
      exact paired_classBody parts hsymbol.symm hc hdeclared
    | expressionStatement n =>
      have hbound := paired_expression n hc.head h
      simp only [Node.relocate, NodeKind.relocate, statement, hbound.tracks]
      split
      · exact hbound.trackAssignment hc.head
      · exact hbound
    | «return» argument => exact paired_optional argument hc h
    | throw argument => exact paired_expression argument hc.head h
    | block body =>
      exact h.scope (.rfl _) (.trans (.hoist _ _) (keeps_statements _ _))
        (paired_statements body hc ((h.enter .block range.start).hoist hc))
    | «if» test consequent alternate =>
      exact paired_optionalStatement alternate hc.tail.tail
        (paired_statement consequent hc.tail.head (paired_expression test hc.head h))
    | «while» test body => exact paired_statement body hc.tail.head (paired_expression test hc.head h)
    | doWhile body test => exact paired_statement body hc.tail.head (paired_expression test hc.head h)
    | «for» init test update body =>
      have hinit := paired_loopStart init hc.left.left.left (h.enter .block range.start)
      have hhead := paired_optional update hc.left.right (paired_optional test hc.left.left.right hinit)
      exact h.scope (.rfl _) ((keeps_loopStart _ _).trans ((keeps_optional _ _).trans ((keeps_optional _ _).trans
        (keeps_statement _ _)))) (paired_statement body hc.right.head hhead)
    | forInOf left right body isOf =>
      have hright := paired_expression right hc.tail.head (h.enter .block range.start)
      have hvalue := hright.evaluate hc.tail.head
      have hleft := paired_expression left hc.head hright
      have hdeclared := hc.head
      obtain ⟨leftRange, leftKind⟩ := left
      cases leftKind with
      | variableDeclaration kind declarations =>
        have htargets := paired_loopTargets (hright.declarationScope kind)
          (congrArg (fun type : Ty => if isOf then type.iterated else .string) hvalue) kind declarations hdeclared.children hright
        exact h.scope (.rfl _)
          ((keeps_expression _ _).trans ((keeps_loopTargets _ _ _ _ _).trans (keeps_statement _ _)))
          (paired_statement body hc.tail.tail.head htargets)
      | _ =>
        exact h.scope (.rfl _) ((keeps_expression _ _).trans ((keeps_expression _ _).trans (keeps_statement _ _)))
          (paired_statement body hc.tail.tail.head hleft)
    | switch discriminant branches =>
      have hdiscriminant := paired_expression discriminant hc.head h
      exact hdiscriminant.scope (.rfl _) (keeps_cases _ _)
        (paired_cases branches hc.tail (hdiscriminant.enter .block range.start))
    | «try» block handler finalizer =>
      exact paired_optionalStatement finalizer hc.tail.right
        (paired_catchClause handler hc.tail.left (paired_statement block hc.head h))
    | _ => exact h

theorem paired_statements : ∀ (l : List Node) {b b' : Binder}, AllAvoid p.hidden l → Paired p b b' →
    Paired p (statements (relocateAll p.near l) b) (statements (relocateAll p.far l) b')
  | [], _, _, _, h => h
  | n :: rest, _, _, hl, h => paired_statements rest hl.tail (paired_statement n hl.head h)

theorem paired_optionalStatement : ∀ (o : Option Node) {b b' : Binder}, AllAvoid p.hidden o.toList → Paired p b b' →
    Paired p (optionalStatement (relocateSome p.near o) b) (optionalStatement (relocateSome p.far o) b')
  | none, _, _, _, h => h
  | some n, _, _, ho, h => paired_statement n ho.head h

theorem paired_loopStart : ∀ (o : Option Node) {b b' : Binder}, AllAvoid p.hidden o.toList → Paired p b b' →
    Paired p (loopStart (relocateSome p.near o) b) (loopStart (relocateSome p.far o) b')
  | none, _, _, _, h => h
  | some ⟨range, kind⟩, _, _, ho, h => by
    have hexpression := paired_expression ⟨range, kind⟩ ho.head h
    cases kind with
    | variableDeclaration kind declarations => exact paired_declarators kind declarations ho.head.children h
    | _ => exact hexpression

theorem paired_loopTargets {scope scope' : ScopeId} (hscope : scope' = p.shift scope) {iterated iterated' : Ty}
    (htype : iterated' = iterated) (kind : VariableKind) : ∀ (l : List Node) {b b' : Binder},
    AllAvoid p.hidden l → Paired p b b' → Paired p (loopTargets scope iterated kind (relocateAll p.near l) b)
      (loopTargets scope' iterated' kind (relocateAll p.far l) b')
  | [], _, _, _, h => h
  | ⟨_, declaration⟩ :: rest, _, _, hl, h => by
    cases declaration with
    | variableDeclarator target init =>
      exact paired_loopTargets hscope htype kind rest hl.tail
        (paired_pattern hscope (congrArg some htype) _ target hl.head.children.head h)
    | _ => exact paired_loopTargets hscope htype kind rest hl.tail h

theorem paired_cases : ∀ (l : List Node) {b b' : Binder}, AllAvoid p.hidden l → Paired p b b' →
    Paired p (Binder.cases (relocateAll p.near l) b) (Binder.cases (relocateAll p.far l) b')
  | [], _, _, _, h => h
  | ⟨_, branch⟩ :: rest, _, _, hl, h => by
    have hc := hl.head.children
    cases branch with
    | switchCase test consequent =>
      have htest := paired_optional test hc.left h
      exact paired_cases rest hl.tail (paired_statements consequent hc.right (htest.hoist hc.right))
    | _ => exact paired_cases rest hl.tail h

theorem paired_catchClause : ∀ (o : Option Node) {b b' : Binder}, AllAvoid p.hidden o.toList → Paired p b b' →
    Paired p (catchClause (relocateSome p.near o) b) (catchClause (relocateSome p.far o) b')
  | none, _, _, _, h => h
  | some ⟨range, kind⟩, b, b', ho, h => by
    have hc := ho.head.children
    cases kind with
    | catchClause param body =>
      obtain ⟨bodyRange, bodyKind⟩ := body
      cases bodyKind with
      | block body =>
        have hbody := hc.head.children
        have hentered := h.enter .catch range.start
        have hdeclared := hentered.declare hentered.current (param.getD "") .parameter (@rfl _ (some (.named "Error")))
          fun hroot => absurd hroot (p.ne_root (h.first_le_enter _ _))
        exact h.scope (.rfl _) (.trans (.declare _ _ _ rfl _) (.trans (.hoist _ _) (keeps_statements _ _)))
          (paired_statements body hbody (hdeclared.hoist hbody))
      | _ => exact h
    | _ => exact h

theorem paired_declarators (kind : VariableKind) :
    ∀ (l : List Node) {b b' : Binder}, AllAvoid p.hidden l → Paired p b b' →
    Paired p (declarators kind (relocateAll p.near l) b) (declarators kind (relocateAll p.far l) b')
  | [], _, _, _, h => h
  | ⟨_, declaration⟩ :: rest, b, b', hl, h => by
    have hc := hl.head.children
    cases declaration with
    | variableDeclarator target init =>
      have hscope := h.declarationScope kind
      have hvalue : (relocateSome p.far init).map b'.evaluate = (relocateSome p.near init).map b.evaluate := by
        cases init with
        | none => rfl
        | some n => exact congrArg some (h.evaluate hc.tail.head)
      have hplain := paired_declarators kind rest hl.tail
        (paired_optional init hc.tail (paired_pattern hscope hvalue kind.symbolKind target hc.head h))
      have hclass : ∀ place, (relocateSome place init).bind (·.classExpression?) =
          (init.bind (·.classExpression?)).map (ClassParts.relocate place) := by
        intro place
        cases init with
        | none => rfl
        | some n => exact Node.classExpression?_relocate place n
      simp only [relocateAll, Node.relocate, NodeKind.relocate]
      rw [declarators, declarators, Node.identifier?_relocate, Node.identifier?_relocate, hclass, hclass]
      cases hname : target.identifier? with
      | none => exact hplain
      | some name =>
        cases hparts : init.bind (·.classExpression?) with
        | none => exact hplain
        | some parts =>
          have hsymbol := h.classSymbol (hc.tail.members hparts) (parts.name.getD name)
          have hdeclared := h.declare hscope name kind.symbolKind (congrArg Symbol.type hsymbol) fun _ =>
            Paired.not_hidden hc.head name (Node.named?_of_identifier? hname)
          obtain ⟨own, superclass, members, bodyRange⟩ := parts
          exact paired_declarators kind rest hl.tail (paired_classValue hsymbol.symm init hc.tail hdeclared)
    | _ => exact paired_declarators kind rest hl.tail h

theorem paired_classValue {symbol symbol' : Symbol} (hsymbol : symbol = symbol') :
    ∀ (o : Option Node) {b b' : Binder},
    AllAvoid p.hidden o.toList → Paired p b b' →
      Paired p (classValue symbol (relocateSome p.near o) b) (classValue symbol' (relocateSome p.far o) b')
  | none, _, _, _, h => h
  | some n, _, _, ho, h => paired_parenthesizedClass hsymbol n ho.head h

theorem paired_parenthesizedClass {symbol symbol' : Symbol} (hsymbol : symbol = symbol') :
    ∀ (n : Node) {b b' : Binder},
    n.Avoids p.hidden → Paired p b b' →
      Paired p (parenthesizedClass symbol (n.relocate p.near) b) (parenthesizedClass symbol' (n.relocate p.far) b')
  | ⟨_, kind⟩, _, _, hn, h => by
    cases kind with
    | parenthesized inner => exact paired_parenthesizedClass hsymbol inner hn.children.head h
    | classExpression parts => exact paired_classBody parts hsymbol hn.children h
    | _ => exact h

theorem paired_pattern {scope scope' : ScopeId} (hscope : scope' = p.shift scope) {source source' : Option Ty}
    (hsource : source' = source) (kind : SymbolKind) :
    ∀ (n : Node) {b b' : Binder}, n.Avoids p.hidden → Paired p b b' →
      Paired p (pattern scope source kind (n.relocate p.near) b) (pattern scope' source' kind (n.relocate p.far) b')
  | ⟨_, nodeKind⟩, b, b', hn, h => by
    have hc := hn.children
    cases nodeKind with
    | identifier name =>
    exact h.declare hscope name kind hsource fun _ => Paired.not_hidden hn name rfl
    | objectLiteral items => exact paired_propertyPatterns hscope hsource kind items hc h
    | arrayLiteral items =>
      exact paired_elementPatterns hscope (congrArg (Option.map (·.iterated)) hsource) kind items hc h
    | assignment operator target value =>
      have hvalue := paired_expression value hc.tail.head h
      exact paired_pattern hscope
        (congrArg₂ (fun (source : Option Ty) type => some ((source.getD .unknown).orElse type)) hsource
        (hvalue.evaluate hc.tail.head)) kind target hc.head hvalue
    | _ => exact h

theorem paired_propertyPatterns {scope scope' : ScopeId} (hscope : scope' = p.shift scope)
    {source source' : Option Ty}
    (hsource : source' = source) (kind : SymbolKind) :
    ∀ (l : List Node) {b b' : Binder}, AllAvoid p.hidden l → Paired p b b' →
      Paired p (propertyPatterns scope source kind (relocateAll p.near l) b)
        (propertyPatterns scope' source' kind (relocateAll p.far l) b')
  | [], _, _, _, h => h
  | ⟨_, item⟩ :: rest, b, b', hl, h => by
    have hc := hl.head.children
    cases item with
    | property key value computed shorthand method =>
      have htype : (source'.bind fun object => ((key.relocate p.far).propertyKey? computed).bind
        (b'.memberType? object)) =
          source.bind fun object => ((key.relocate p.near).propertyKey? computed).bind (b.memberType? object) := by
        have hmember : b'.memberType? = b.memberType? := funext fun object => funext (h.memberType? object)
        rw [hsource, Node.propertyKey?_relocate, Node.propertyKey?_relocate, hmember]
      exact paired_propertyPatterns hscope hsource kind rest hl.tail
        (paired_pattern hscope htype kind value hc.tail.head h)
    | spread argument =>
      exact paired_propertyPatterns hscope hsource kind rest hl.tail
        (paired_pattern hscope rfl kind argument hc.head h)
    | _ => exact paired_propertyPatterns hscope hsource kind rest hl.tail h

theorem paired_elementPatterns {scope scope' : ScopeId} (hscope : scope' = p.shift scope)
    {element element' : Option Ty}
    (helement : element' = element) (kind : SymbolKind) :
    ∀ (l : List Node) {b b' : Binder}, AllAvoid p.hidden l → Paired p b b' →
      Paired p (elementPatterns scope element kind (relocateAll p.near l) b)
        (elementPatterns scope' element' kind (relocateAll p.far l) b')
  | [], _, _, _, h => h
  | ⟨range, item⟩ :: rest, _, _, hl, h => by
    have hitem := paired_elementPatterns hscope helement kind rest hl.tail
      (paired_pattern hscope helement kind ⟨range, item⟩ hl.head h)
    cases item with
    | spread argument =>
      exact paired_elementPatterns hscope helement kind rest hl.tail
        (paired_pattern hscope (congrArg (Option.map Ty.array) helement) kind argument hl.head.children.head h)
    | _ => exact hitem

theorem paired_parameters : ∀ (l : List Node) {b b' : Binder}, AllAvoid p.hidden l → Paired p b b' →
    Paired p (parameters (relocateAll p.near l) b) (parameters (relocateAll p.far l) b')
  | [], _, _, _, h => h
  | ⟨_, parameter⟩ :: rest, b, b', hl, h => by
    have hc := hl.head.children
    cases parameter with
    | parameter name target fallback isRest =>
      have hfallback := paired_optional fallback hc.right h
      have hvalue : (relocateSome p.far fallback).map (Binder.optional (relocateSome p.far fallback) b').evaluate =
          (relocateSome p.near fallback).map (Binder.optional (relocateSome p.near fallback) b).evaluate := by
        cases fallback with
        | none => rfl
        | some n => exact congrArg some (hfallback.evaluate hc.right.head)
      have htype := congrArg (fun type => if isRest then some (.array .unknown) else type) hvalue
      cases target with
      | some target =>
        exact paired_parameters rest hl.tail (paired_pattern h.current htype .parameter target hc.left.head hfallback)
      | none =>
        exact paired_parameters rest hl.tail
          (hfallback.declare h.current name .parameter htype fun _ => Paired.not_hidden hl.head name rfl)
    | _ => exact paired_parameters rest hl.tail h

theorem paired_function : ∀ (parts : FunctionParts Node) (start : Nat) {symbol symbol' : Option Symbol},
    symbol.isSome = symbol'.isSome → ∀ (isStatic : Bool) {b b' : Binder},
      AllAvoid p.hidden (parts.params ++ [parts.body]) →
      Paired p b b' → Paired p (function (parts.relocate p.near) (p.near start) symbol isStatic b)
        (function (parts.relocate p.far) (p.far start) symbol' isStatic b')
  | ⟨_, params, ⟨range, kind⟩, _⟩, start, symbol, symbol', hsome, isStatic, b, b', hparts, h => by
    have hparams := paired_parameters params hparts.left ((h.enter .function start).setFunction hsome isStatic)
    have hbody := hparts.right.head
    have hstatement := paired_statement ⟨range, kind⟩ hbody hparams
    cases kind with
    | block body =>
      exact h.scope (.setFunction _ symbol isStatic)
        ((keeps_parameters _ _).trans (.trans (.hoist _ _) (keeps_statements _ _)))
        (paired_statements body hbody.children (hparams.hoist hbody.children))
    | _ =>
      exact h.scope (.setFunction _ symbol isStatic) ((keeps_parameters _ _).trans (keeps_statement _ _))
        hstatement

theorem paired_classBody :
    ∀ (parts : ClassParts Node) {symbol symbol' : Symbol}, symbol = symbol' → ∀ {b b' : Binder},
    AllAvoid p.hidden (parts.superclass.toList ++ parts.members) → Paired p b b' →
      Paired p (classBody (parts.relocate p.near) symbol b) (classBody (parts.relocate p.far) symbol' b')
  | ⟨_, superclass, members, bodyRange⟩, symbol, _, rfl, b, b', hparts, h => by
    have hsuper := paired_optional superclass hparts.left h
    have hopened := (hsuper.enter .classBody bodyRange.start).declareMembers (hsuper.first_le_enter _ _) symbol
    exact hsuper.scope ((Tunes.declareMembers _ symbol).trans (.setClass _ symbol)) (keeps_classElements _ _)
      (paired_classElements members hparts.right (hopened.setClass symbol))

theorem paired_classElements : ∀ (l : List Node) {b b' : Binder}, AllAvoid p.hidden l → Paired p b b' →
    Paired p (classElements (relocateAll p.near l) b) (classElements (relocateAll p.far l) b')
  | [], _, _, _, h => h
  | ⟨_, element⟩ :: rest, b, b', hl, h => by
    have hc := hl.head.children
    cases element with
    | methodMember key kind isStatic value =>
      have hvalue := hc.head
      obtain ⟨range, kind⟩ := value
      cases kind with
      | functionExpression parts =>
        have hsome : (some (b.methodSymbol key)).isSome = (some (b'.methodSymbol key)).isSome := rfl
        exact paired_classElements rest hl.tail (paired_function parts range.start hsome isStatic hvalue.children h)
      | _ => exact paired_classElements rest hl.tail h
    | fieldMember key value isStatic => exact paired_classElements rest hl.tail (paired_optional value hc h)
    | _ => exact paired_classElements rest hl.tail h

theorem paired_expression : ∀ (n : Node) {b b' : Binder}, n.Avoids p.hidden → Paired p b b' →
    Paired p (expression (n.relocate p.near) b) (expression (n.relocate p.far) b')
  | ⟨range, kind⟩, b, b', hn, h => by
    have hc : AllAvoid p.hidden kind.children := hn.children
    cases kind with
    | arrowFunction params body isAsync =>
      have hparams := paired_parameters params hc.left (h.enter .arrow range.start)
      have hbody := hc.right.head
      have hexpression := paired_expression body hbody hparams
      obtain ⟨bodyRange, bodyKind⟩ := body
      cases bodyKind with
      | block body =>
        exact h.scope (.rfl _) ((keeps_parameters _ _).trans (.trans (.hoist _ _) (keeps_statements _ _)))
          (paired_statements body hbody.children (hparams.hoist hbody.children))
      | _ =>
        exact h.scope (.rfl _) ((keeps_parameters _ _).trans (keeps_expression _ _)) hexpression
    | functionExpression parts =>
      obtain ⟨name, params, body, isAsync⟩ := parts
      cases name with
      | none => exact paired_function ⟨none, params, body, isAsync⟩ range.start rfl false hc h
      | some name =>
        have hsome : (some (⟨name, .function, none⟩ : Symbol)).isSome = true := rfl
        have hbound := paired_function ⟨some name, params, body, isAsync⟩ range.start
          (hsome.trans hsome.symm) false hc h
        have hnamed := hbound.define b.tree.size ⟨name, .function, none⟩ fun hroot => absurd hroot (p.ne_root h.first)
        rw [h.shift_size] at hnamed
        exact hnamed
    | classExpression parts =>
      have hsymbol := h.classSymbol hc.right (parts.name.getD "")
      obtain ⟨name, superclass, members, bodyRange⟩ := parts
      exact paired_classBody ⟨name, superclass, members, bodyRange⟩ hsymbol.symm hc h
    | member object property computed chained =>
      have hobject := paired_expression object hc.head h
      cases computed with
      | true => exact paired_expression property hc.tail.head hobject
      | false => exact hobject
    | call callee arguments chained => exact paired_expressions arguments hc.tail (paired_expression callee hc.head h)
    | new callee arguments => exact paired_expressions arguments hc.tail (paired_expression callee hc.head h)
    | binary operator left right => exact paired_expression right hc.tail.head (paired_expression left hc.head h)
    | logical operator left right => exact paired_expression right hc.tail.head (paired_expression left hc.head h)
    | assignment operator left right => exact paired_expression right hc.tail.head (paired_expression left hc.head h)
    | unary operator argument => exact paired_expression argument hc.head h
    | update operator isPrefix argument => exact paired_expression argument hc.head h
    | spread argument => exact paired_expression argument hc.head h
    | parenthesized inner => exact paired_expression inner hc.head h
    | conditional test consequent alternate =>
      exact paired_expression alternate hc.tail.tail.head
        (paired_expression consequent hc.tail.head (paired_expression test hc.head h))
    | sequence items => exact paired_expressions items hc h
    | arrayLiteral items => exact paired_expressions items hc h
    | objectLiteral items => exact paired_properties items hc h
    | _ => exact h

theorem paired_optional : ∀ (o : Option Node) {b b' : Binder}, AllAvoid p.hidden o.toList → Paired p b b' →
    Paired p (Binder.optional (relocateSome p.near o) b) (Binder.optional (relocateSome p.far o) b')
  | none, _, _, _, h => h
  | some n, _, _, ho, h => paired_expression n ho.head h

theorem paired_expressions : ∀ (l : List Node) {b b' : Binder}, AllAvoid p.hidden l → Paired p b b' →
    Paired p (expressions (relocateAll p.near l) b) (expressions (relocateAll p.far l) b')
  | [], _, _, _, h => h
  | n :: rest, _, _, hl, h => paired_expressions rest hl.tail (paired_expression n hl.head h)

theorem paired_properties : ∀ (l : List Node) {b b' : Binder}, AllAvoid p.hidden l → Paired p b b' →
    Paired p (properties (relocateAll p.near l) b) (properties (relocateAll p.far l) b')
  | [], _, _, _, h => h
  | ⟨range, item⟩ :: rest, _, _, hl, h => by
    have hc := hl.head.children
    have hitem := paired_properties rest hl.tail (paired_expression ⟨range, item⟩ hl.head h)
    cases item with
    | property key value computed shorthand method =>
      cases computed with
      | false => exact paired_properties rest hl.tail (paired_expression value hc.tail.head h)
      | true =>
        exact paired_properties rest hl.tail
          (paired_expression value hc.tail.head (paired_expression key hc.head h))
    | _ => exact hitem
end

end Typeahead
