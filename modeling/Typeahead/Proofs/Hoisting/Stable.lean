/-
# What every step of a walk keeps

The binder walks over a tree in a few kinds of steps: it declares names in scopes, gives names that
are declared another type, and opens scopes and leaves them. A property of its states that each of
these steps keeps holds after the walk if it did before. Which steps there are depends on what is
in the tree: the names that are declared, and whether there are classes.

Key definitions: `NodeKind.declares`, `Stable`.
Key theorems: `stable_statement`, `stable_statements`, `stable_function`.
-/
import Typeahead.Proofs.Hoisting.Relocation
import Typeahead.Proofs.Unfinished.Declare

namespace Typeahead

open Binder

/-- The names that a node of a kind declares. -/
def NodeKind.declares : NodeKind → List String
  | .functionDeclaration parts => parts.name.toList
  | .classDeclaration parts => parts.name.toList
  | .variableDeclarator target _ => target.identifier?.toList ++ target.boundNames
  | .parameter _ (some target) _ _ => target.boundNames
  | .parameter name none _ _ => nameOf name
  | .catchClause param _ => param.toList
  | _ => []

/-! ### What is declared at another place -/

section

variable {place : Nat → Nat}

mutual
theorem Node.boundNames_relocate : ∀ n : Node, (n.relocate place).boundNames = n.boundNames
  | ⟨range, kind⟩ => by
    cases kind with
    | objectLiteral items => exact propertyBoundNames_relocate items
    | arrayLiteral items => exact elementBoundNames_relocate items
    | assignment operator target value => exact target.boundNames_relocate
    | _ => rfl

theorem propertyBoundNames_relocate : ∀ l : List Node, propertyBoundNames (relocateAll place l) = propertyBoundNames l
  | [] => rfl
  | ⟨range, item⟩ :: rest => by
    have ih := propertyBoundNames_relocate rest
    cases item with
    | property key value computed shorthand method => exact congrArg₂ (· ++ ·) value.boundNames_relocate ih
    | spread argument => exact congrArg₂ (· ++ ·) argument.boundNames_relocate ih
    | _ => exact ih

theorem elementBoundNames_relocate : ∀ l : List Node, elementBoundNames (relocateAll place l) = elementBoundNames l
  | [] => rfl
  | ⟨range, item⟩ :: rest => by
    have ih := elementBoundNames_relocate rest
    have hitem := Node.boundNames_relocate ⟨range, item⟩
    cases item with
    | spread argument => exact congrArg₂ (· ++ ·) argument.boundNames_relocate ih
    | _ => exact congrArg₂ (· ++ ·) hitem ih
end

theorem NodeKind.declares_relocate (kind : NodeKind) : (kind.relocate place).declares = kind.declares := by
  cases kind with
  | functionDeclaration parts | classDeclaration parts => simp [relocate, declares]
  | variableDeclarator target init => simp [relocate, declares, Node.boundNames_relocate]
  | parameter name target fallback isRest =>
    cases target with
    | none => rfl
    | some target => exact target.boundNames_relocate
  | _ => rfl

theorem NodeKind.classBody?_relocate (kind : NodeKind) :
    (kind.relocate place).classBody? = none ↔ kind.classBody? = none := by
  cases kind with
  | classExpression parts | classDeclaration parts => simp [relocate, classBody?]
  | _ => exact Iff.rfl

end

/-- A name may be declared in a tree whose nodes are of some kinds. -/
def Declarable (Q : NodeKind → Prop) (name : String) : Prop := ∃ kind, Q kind ∧ name ∈ kind.declares

/-- There may be classes in a tree whose nodes are of some kinds. -/
def HasClasses (Q : NodeKind → Prop) : Prop := ∃ kind, Q kind ∧ kind.classBody?.isSome

/-- Every step of the binder in a tree whose nodes are of some kinds keeps a property of states, in
which names are declared in certain scopes. -/
structure Stable (Q : NodeKind → Prop) (Ok : ScopeId → Prop) (P : Binder → Prop) : Prop where
  current : ∀ {b}, P b → Ok b.current
  owner : ∀ {b}, P b → Ok b.variableScope
  define : ∀ {b scope name}, P b → Ok scope → Declarable Q name → ∀ kind type,
    P { b with tree := b.tree.define scope ⟨name, kind, type⟩ }
  retype : ∀ {b scope name}, P b → Ok scope → Declarable Q name → ∀ type,
    P { b with tree := b.tree.retype scope name type }
  track : ∀ {b}, P b → ∀ n, P (b.trackAssignment n)
  name : ∀ {b b'}, P b → P b' → ∀ symbol, P { b' with tree := b'.tree.define b.tree.size symbol }
  enter : ∀ {b}, P b → ∀ kind, kind ≠ .classBody → ∀ start, P (b.enter kind start)
  openFunction : ∀ {b}, P b → ∀ start symbol isStatic, P ((b.enter .function start).setFunction symbol isStatic)
  openClass : ∀ {b}, P b → HasClasses Q → ∀ start symbol,
    P (((b.enter .classBody start).declareMembers symbol).setClass symbol)
  leave : ∀ {b c e kind start}, P b → (b.enter kind start).Tunes c → c.Keeps e → P e → ∀ stop, P (e.leave stop)

namespace Stable

variable {Q : NodeKind → Prop} {Ok : ScopeId → Prop} {P : Binder → Prop} (S : Stable Q Ok P) {b : Binder}

include S

theorem declarationScope (h : P b) (kind : VariableKind) : Ok (b.declarationScope kind) := by
  cases kind with
  | varKind => exact S.owner h
  | letKind | constKind => exact S.current h

theorem declare {scope : ScopeId} {name : String} (h : P b) (hscope : Ok scope)
    (hname : name.isEmpty = false → Declarable Q name) (kind : SymbolKind) (type : Option Ty) :
    P (b.declare scope name kind type) := by
  rw [Binder.declare]
  split
  · exact h
  · rename_i hne
    exact S.define h hscope (hname (Bool.eq_false_iff.2 hne)) kind type

theorem hoist {l : List Node} (hl : AllThroughout Q l) (h : P b) : P (b.hoist l) := by
  rw [Binder.hoist]
  induction l generalizing b with
  | nil => exact h
  | cons n rest ih =>
    refine ih hl.tail ?_
    obtain ⟨range, kind⟩ := n
    cases kind with
    | functionDeclaration parts =>
      have hown := hl.head.own
      obtain ⟨name, params, body, isAsync⟩ := parts
      cases name with
      | none => exact h
      | some name => exact S.declare h (S.current h) (fun _ => ⟨_, hown, by simp [NodeKind.declares]⟩) _ _
    | _ => exact h

/-- A walk in a scope of its own, which is no class body. -/
theorem scope {kind : ScopeKind} {start : Nat} {e : Binder} (stop : Nat) (h : P b)
    (hkeeps : (b.enter kind start).Keeps e) (he : P e) : P (e.leave stop) :=
  S.leave h (.rfl _) hkeeps he stop

theorem trackAssignments (h : P b) (n : Node) : P (if b.tracksAssignments then b.trackAssignment n else b) := by
  split
  · exact S.track h n
  · exact h

end Stable

variable {Q : NodeKind → Prop} {Ok : ScopeId → Prop} {P : Binder → Prop}

/-- The names of a variable. -/
theorem declarable_target {target : Node} {init : Option Node} (h : Q (.variableDeclarator target init)) :
    ∀ name ∈ target.boundNames, Declarable Q name := fun _ hname => ⟨_, h, List.mem_append_right _ hname⟩

mutual
/-- **A property that every step keeps holds after a statement is bound.** -/
theorem stable_statement (S : Stable Q Ok P) : ∀ (n : Node) {b : Binder}, n.Throughout Q → P b → P (statement n b)
  | ⟨range, kind⟩, b, hn, h => by
    have hc : AllThroughout Q kind.children := hn.children
    cases kind with
    | variableDeclaration kind declarations => exact stable_declarators S kind declarations hc h
    | functionDeclaration parts =>
      have hbound := stable_function S parts range.start (parts.name.bind (b.tree.resolve? b.current)) false hc h
      rw [statement]
      split
      · rename_i name hname
        rw [Binder.refineResult]
        split
        · exact hbound
        · split
          · exact S.retype hbound (S.current h) ⟨_, hn.own, by simp [NodeKind.declares, hname]⟩ _
          · exact hbound
      · exact hbound
    | classDeclaration parts =>
      have hname : (parts.name.getD "").isEmpty = false → Declarable Q (parts.name.getD "") := by
        intro hne
        refine ⟨_, hn.own, ?_⟩
        cases hname : parts.name with
        | none => simp [hname] at hne
        | some name => simp [NodeKind.declares, hname]
      exact stable_classBody S parts ⟨_, hn.own, rfl⟩ _ hc (S.declare h (S.current h) hname _ _)
    | expressionStatement n => exact S.trackAssignments (stable_expression S n hc.head h) n
    | «return» argument => exact stable_optional S argument hc h
    | throw argument => exact stable_expression S argument hc.head h
    | block body =>
      exact S.scope _ h (.trans (.hoist _ _) (keeps_statements _ _))
        (stable_statements S body hc (S.hoist hc (S.enter h .block (by decide) _)))
    | «if» test consequent alternate =>
      exact stable_optionalStatement S alternate hc.tail.tail
        (stable_statement S consequent hc.tail.head (stable_expression S test hc.head h))
    | «while» test body => exact stable_statement S body hc.tail.head (stable_expression S test hc.head h)
    | doWhile body test => exact stable_statement S body hc.tail.head (stable_expression S test hc.head h)
    | «for» init test update body =>
      have hinit := stable_loopStart S init hc.left.left.left (S.enter h .block (by decide) range.start)
      have hhead := stable_optional S update hc.left.right (stable_optional S test hc.left.left.right hinit)
      exact S.scope _ h ((keeps_loopStart _ _).trans ((keeps_optional _ _).trans ((keeps_optional _ _).trans
        (keeps_statement _ _)))) (stable_statement S body hc.right.head hhead)
    | forInOf left right body isOf =>
      have hright := stable_expression S right hc.tail.head (S.enter h .block (by decide) range.start)
      have hleft := stable_expression S left hc.head hright
      have hdeclared := hc.head
      obtain ⟨leftRange, leftKind⟩ := left
      cases leftKind with
      | variableDeclaration kind declarations =>
        exact S.scope _ h ((keeps_expression _ _).trans ((keeps_loopTargets _ _ _ _ _).trans (keeps_statement _ _)))
          (stable_statement S body hc.tail.tail.head
            (stable_loopTargets S (S.declarationScope hright kind) _ kind declarations hdeclared.children hright))
      | _ =>
        exact S.scope _ h ((keeps_expression _ _).trans ((keeps_expression _ _).trans (keeps_statement _ _)))
          (stable_statement S body hc.tail.tail.head hleft)
    | switch discriminant branches =>
      have hdiscriminant := stable_expression S discriminant hc.head h
      exact S.scope _ hdiscriminant (keeps_cases _ _)
        (stable_cases S branches hc.tail (S.enter hdiscriminant .block (by decide) range.start))
    | «try» block handler finalizer =>
      exact stable_optionalStatement S finalizer hc.tail.right
        (stable_catchClause S handler hc.tail.left (stable_statement S block hc.head h))
    | _ => exact h

theorem stable_statements (S : Stable Q Ok P) :
    ∀ (l : List Node) {b : Binder}, AllThroughout Q l → P b → P (statements l b)
  | [], _, _, h => h
  | n :: rest, _, hl, h => stable_statements S rest hl.tail (stable_statement S n hl.head h)

theorem stable_optionalStatement (S : Stable Q Ok P) :
    ∀ (o : Option Node) {b : Binder}, AllThroughout Q o.toList → P b →
    P (optionalStatement o b)
  | none, _, _, h => h
  | some n, _, ho, h => stable_statement S n ho.head h

theorem stable_loopStart (S : Stable Q Ok P) : ∀ (o : Option Node) {b : Binder}, AllThroughout Q o.toList → P b →
    P (loopStart o b)
  | none, _, _, h => h
  | some ⟨range, kind⟩, _, ho, h => by
    have hexpression := stable_expression S ⟨range, kind⟩ ho.head h
    cases kind with
    | variableDeclaration kind declarations => exact stable_declarators S kind declarations ho.head.children h
    | _ => exact hexpression

theorem stable_loopTargets (S : Stable Q Ok P) {scope : ScopeId} (hscope : Ok scope) (iterated : Ty)
    (kind : VariableKind) :
    ∀ (l : List Node) {b : Binder}, AllThroughout Q l → P b → P (loopTargets scope iterated kind l b)
  | [], _, _, h => h
  | ⟨_, declaration⟩ :: rest, _, hl, h => by
    cases declaration with
    | variableDeclarator target init =>
      exact stable_loopTargets S hscope iterated kind rest hl.tail
        (stable_pattern S hscope _ _ target hl.head.children.head (declarable_target hl.head.own) h)
    | _ => exact stable_loopTargets S hscope iterated kind rest hl.tail h

theorem stable_cases (S : Stable Q Ok P) :
    ∀ (l : List Node) {b : Binder}, AllThroughout Q l → P b → P (Binder.cases l b)
  | [], _, _, h => h
  | ⟨_, branch⟩ :: rest, _, hl, h => by
    have hc := hl.head.children
    cases branch with
    | switchCase test consequent =>
      exact stable_cases S rest hl.tail
        (stable_statements S consequent hc.right (S.hoist hc.right (stable_optional S test hc.left h)))
    | _ => exact stable_cases S rest hl.tail h

theorem stable_catchClause (S : Stable Q Ok P) : ∀ (o : Option Node) {b : Binder}, AllThroughout Q o.toList → P b →
    P (catchClause o b)
  | none, _, _, h => h
  | some ⟨range, kind⟩, b, ho, h => by
    have hc := ho.head.children
    have hown := ho.head.own
    cases kind with
    | catchClause param body =>
      obtain ⟨bodyRange, bodyKind⟩ := body
      cases bodyKind with
      | block body =>
        have hentered := S.enter h .catch (by decide) range.start
        have hname : (param.getD "").isEmpty = false → Declarable Q (param.getD "") := by
          intro hne
          refine ⟨_, hown, ?_⟩
          cases param with
          | none => simp at hne
          | some name => simp [NodeKind.declares]
        have hdeclared := S.declare hentered (S.current hentered) hname .parameter (some (.named "Error"))
        exact S.scope _ h (.trans (.declare _ _ _ rfl _) (.trans (.hoist _ _) (keeps_statements _ _)))
          (stable_statements S body hc.head.children (S.hoist hc.head.children hdeclared))
      | _ => exact h
    | _ => exact h

theorem stable_declarators (S : Stable Q Ok P) (kind : VariableKind) :
    ∀ (l : List Node) {b : Binder}, AllThroughout Q l →
    P b → P (declarators kind l b)
  | [], _, _, h => h
  | ⟨_, declaration⟩ :: rest, b, hl, h => by
    have hc := hl.head.children
    have hown := hl.head.own
    cases declaration with
    | variableDeclarator target init =>
      have hscope := S.declarationScope h kind
      rw [declarators]
      split
      · rename_i name parts hname hparts
        exact stable_declarators S kind rest hl.tail (stable_classValue S _ init hc.tail
          (S.declare h hscope (fun _ => ⟨_, hown, by simp [NodeKind.declares, hname]⟩) _ _))
      · exact stable_declarators S kind rest hl.tail (stable_optional S init hc.tail
          (stable_pattern S hscope _ _ target hc.head (declarable_target hown) h))
    | _ => exact stable_declarators S kind rest hl.tail h

theorem stable_classValue (S : Stable Q Ok P) (symbol : Symbol) : ∀ (o : Option Node) {b : Binder},
    AllThroughout Q o.toList → P b → P (classValue symbol o b)
  | none, _, _, h => h
  | some n, _, ho, h => stable_parenthesizedClass S symbol n ho.head h

theorem stable_parenthesizedClass (S : Stable Q Ok P) (symbol : Symbol) :
    ∀ (n : Node) {b : Binder}, n.Throughout Q → P b →
    P (parenthesizedClass symbol n b)
  | ⟨_, kind⟩, _, hn, h => by
    have hown := hn.own
    cases kind with
    | parenthesized inner => exact stable_parenthesizedClass S symbol inner hn.children.head h
    | classExpression parts => exact stable_classBody S parts ⟨_, hown, rfl⟩ symbol hn.children h
    | _ => exact h

theorem stable_pattern (S : Stable Q Ok P) {scope : ScopeId} (hscope : Ok scope) (source : Option Ty)
    (kind : SymbolKind) :
    ∀ (n : Node) {b : Binder}, n.Throughout Q → (∀ name ∈ n.boundNames, Declarable Q name) → P b →
      P (pattern scope source kind n b)
  | ⟨_, nodeKind⟩, b, hn, hnames, h => by
    have hc := hn.children
    cases nodeKind with
    | identifier name =>
      exact S.declare h hscope (fun hne => hnames name (by simp [Node.boundNames, nameOf, hne])) _ _
    | objectLiteral items => exact stable_propertyPatterns S hscope source kind items hc hnames h
    | arrayLiteral items => exact stable_elementPatterns S hscope _ kind items hc hnames h
    | assignment operator target value =>
      exact stable_pattern S hscope _ kind target hc.head hnames (stable_expression S value hc.tail.head h)
    | _ => exact h

theorem stable_propertyPatterns (S : Stable Q Ok P) {scope : ScopeId} (hscope : Ok scope) (source : Option Ty)
    (kind : SymbolKind) : ∀ (l : List Node) {b : Binder}, AllThroughout Q l →
      (∀ name ∈ propertyBoundNames l, Declarable Q name) → P b → P (propertyPatterns scope source kind l b)
  | [], _, _, _, h => h
  | ⟨_, item⟩ :: rest, b, hl, hnames, h => by
    have hc := hl.head.children
    cases item with
    | property key value computed shorthand method =>
      obtain ⟨hvalue, hrest⟩ := List.forall_mem_append.1 hnames
      exact stable_propertyPatterns S hscope source kind rest hl.tail hrest
        (stable_pattern S hscope _ kind value hc.tail.head hvalue h)
    | spread argument =>
      obtain ⟨hargument, hrest⟩ := List.forall_mem_append.1 hnames
      exact stable_propertyPatterns S hscope source kind rest hl.tail hrest
        (stable_pattern S hscope _ kind argument hc.head hargument h)
    | _ => exact stable_propertyPatterns S hscope source kind rest hl.tail hnames h

theorem stable_elementPatterns (S : Stable Q Ok P) {scope : ScopeId} (hscope : Ok scope) (element : Option Ty)
    (kind : SymbolKind) : ∀ (l : List Node) {b : Binder}, AllThroughout Q l →
      (∀ name ∈ elementBoundNames l, Declarable Q name) → P b → P (elementPatterns scope element kind l b)
  | [], _, _, _, h => h
  | ⟨range, item⟩ :: rest, b, hl, hnames, h => by
    cases item with
    | spread argument =>
      obtain ⟨hargument, hrest⟩ := List.forall_mem_append.1 hnames
      exact stable_elementPatterns S hscope element kind rest hl.tail hrest
        (stable_pattern S hscope _ kind argument hl.head.children.head hargument h)
    | _ =>
      obtain ⟨hitem, hrest⟩ := List.forall_mem_append.1 hnames
      exact stable_elementPatterns S hscope element kind rest hl.tail hrest
        (stable_pattern S hscope _ kind ⟨range, _⟩ hl.head hitem h)

theorem stable_parameters (S : Stable Q Ok P) :
    ∀ (l : List Node) {b : Binder}, AllThroughout Q l → P b → P (parameters l b)
  | [], _, _, h => h
  | ⟨_, parameter⟩ :: rest, b, hl, h => by
    have hc := hl.head.children
    have hown := hl.head.own
    cases parameter with
    | parameter name target fallback isRest =>
      have hfallback := stable_optional S fallback hc.right h
      cases target with
      | some target =>
        exact stable_parameters S rest hl.tail
          (stable_pattern S (S.current h) _ .parameter target hc.left.head
            (fun name hname => ⟨_, hown, hname⟩) hfallback)
      | none =>
        exact stable_parameters S rest hl.tail
          (S.declare hfallback (S.current h)
            (fun hne => ⟨_, hown, by simp [NodeKind.declares, nameOf, hne]⟩) .parameter _)
    | _ => exact stable_parameters S rest hl.tail h

theorem stable_function (S : Stable Q Ok P) : ∀ (parts : FunctionParts Node) (start : Nat) (symbol : Option Symbol)
    (isStatic : Bool) {b : Binder}, AllThroughout Q (parts.params ++ [parts.body]) → P b →
      P (function parts start symbol isStatic b)
  | ⟨_, params, ⟨range, kind⟩, _⟩, start, symbol, isStatic, b, hparts, h => by
    have hparams := stable_parameters S params hparts.left (S.openFunction h start symbol isStatic)
    have hbody := hparts.right.head
    have hstatement := stable_statement S ⟨range, kind⟩ hbody hparams
    cases kind with
    | block body =>
      exact S.leave h (.setFunction _ symbol isStatic)
        ((keeps_parameters _ _).trans (.trans (.hoist _ _) (keeps_statements _ _)))
        (stable_statements S body hbody.children (S.hoist hbody.children hparams)) _
    | _ =>
      exact S.leave h (.setFunction _ symbol isStatic)
        ((keeps_parameters _ _).trans (keeps_statement _ _)) hstatement _

theorem stable_classBody (S : Stable Q Ok P) :
    ∀ (parts : ClassParts Node), HasClasses Q → ∀ (symbol : Symbol) {b : Binder},
    AllThroughout Q (parts.superclass.toList ++ parts.members) → P b → P (classBody parts symbol b)
  | ⟨_, superclass, members, bodyRange⟩, hclass, symbol, b, hparts, h => by
    have hsuper := stable_optional S superclass hparts.left h
    exact S.leave hsuper ((Tunes.declareMembers _ symbol).trans (.setClass _ symbol)) (keeps_classElements _ _)
      (stable_classElements S members hparts.right (S.openClass hsuper hclass bodyRange.start symbol)) _

theorem stable_classElements (S : Stable Q Ok P) : ∀ (l : List Node) {b : Binder}, AllThroughout Q l → P b →
    P (classElements l b)
  | [], _, _, h => h
  | ⟨_, element⟩ :: rest, b, hl, h => by
    have hc := hl.head.children
    cases element with
    | methodMember key kind isStatic value =>
      have hvalue := hc.head
      obtain ⟨range, kind⟩ := value
      cases kind with
      | functionExpression parts =>
        exact stable_classElements S rest hl.tail (stable_function S parts range.start _ isStatic hvalue.children h)
      | _ => exact stable_classElements S rest hl.tail h
    | fieldMember key value isStatic => exact stable_classElements S rest hl.tail (stable_optional S value hc h)
    | _ => exact stable_classElements S rest hl.tail h

theorem stable_expression (S : Stable Q Ok P) : ∀ (n : Node) {b : Binder}, n.Throughout Q → P b → P (expression n b)
  | ⟨range, kind⟩, b, hn, h => by
    have hc : AllThroughout Q kind.children := hn.children
    have hown := hn.own
    cases kind with
    | arrowFunction params body isAsync =>
      have hparams := stable_parameters S params hc.left (S.enter h .arrow (by decide) range.start)
      have hbody := hc.right.head
      have hexpression := stable_expression S body hbody hparams
      obtain ⟨bodyRange, bodyKind⟩ := body
      cases bodyKind with
      | block body =>
        exact S.scope _ h ((keeps_parameters _ _).trans (.trans (.hoist _ _) (keeps_statements _ _)))
          (stable_statements S body hbody.children (S.hoist hbody.children hparams))
      | _ => exact S.scope _ h ((keeps_parameters _ _).trans (keeps_expression _ _)) hexpression
    | functionExpression parts =>
      rw [expression]
      split
      · exact S.name h (stable_function S parts _ _ _ hc h) _
      · exact stable_function S parts _ _ _ hc h
    | classExpression parts => exact stable_classBody S parts ⟨_, hown, rfl⟩ _ hc h
    | member object property computed chained =>
      have hobject := stable_expression S object hc.head h
      cases computed with
      | true => exact stable_expression S property hc.tail.head hobject
      | false => exact hobject
    | call callee arguments chained =>
      exact stable_expressions S arguments hc.tail (stable_expression S callee hc.head h)
    | new callee arguments => exact stable_expressions S arguments hc.tail (stable_expression S callee hc.head h)
    | binary operator left right => exact stable_expression S right hc.tail.head (stable_expression S left hc.head h)
    | logical operator left right => exact stable_expression S right hc.tail.head (stable_expression S left hc.head h)
    | assignment operator left right =>
      exact stable_expression S right hc.tail.head (stable_expression S left hc.head h)
    | unary operator argument => exact stable_expression S argument hc.head h
    | update operator isPrefix argument => exact stable_expression S argument hc.head h
    | spread argument => exact stable_expression S argument hc.head h
    | parenthesized inner => exact stable_expression S inner hc.head h
    | conditional test consequent alternate =>
      exact stable_expression S alternate hc.tail.tail.head
        (stable_expression S consequent hc.tail.head (stable_expression S test hc.head h))
    | sequence items => exact stable_expressions S items hc h
    | arrayLiteral items => exact stable_expressions S items hc h
    | objectLiteral items => exact stable_properties S items hc h
    | _ => exact h

theorem stable_optional (S : Stable Q Ok P) : ∀ (o : Option Node) {b : Binder}, AllThroughout Q o.toList → P b →
    P (Binder.optional o b)
  | none, _, _, h => h
  | some n, _, ho, h => stable_expression S n ho.head h

theorem stable_expressions (S : Stable Q Ok P) :
    ∀ (l : List Node) {b : Binder}, AllThroughout Q l → P b → P (expressions l b)
  | [], _, _, h => h
  | n :: rest, _, hl, h => stable_expressions S rest hl.tail (stable_expression S n hl.head h)

theorem stable_properties (S : Stable Q Ok P) :
    ∀ (l : List Node) {b : Binder}, AllThroughout Q l → P b → P (properties l b)
  | [], _, _, h => h
  | ⟨range, item⟩ :: rest, b, hl, h => by
    have hc := hl.head.children
    have hitem := stable_properties S rest hl.tail (stable_expression S ⟨range, item⟩ hl.head h)
    cases item with
    | property key value computed shorthand method =>
      cases computed with
      | false => exact stable_properties S rest hl.tail (stable_expression S value hc.tail.head h)
      | true =>
        exact stable_properties S rest hl.tail
          (stable_expression S value hc.tail.head (stable_expression S key hc.head h))
    | _ => exact hitem
end

end Typeahead
