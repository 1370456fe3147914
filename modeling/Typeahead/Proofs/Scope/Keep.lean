/-
# What the binder leaves in place

A scope never loses a name that it binds, nor does it move: its parent and its start stay, and its
end does once it is closed. Members of a class are no names and may take the place of one, but
they are declared only in the scope of a class body that was just opened.

Key definitions: `Scope.Binds`, `Scope.Lasts`, `Binder.Retains`, `Binder.Keeps`.
Key theorems: `Binder.Keeps.scope`, `keeps_statement`, `keeps_statements`.
-/
import Typeahead.Proofs.Scope.Outline

namespace Typeahead

namespace Scope

/-- A scope binds a name: it has a symbol for it, which is no member of a class. -/
def Binds (scope : Scope) (name : String) : Prop :=
  ∃ symbol, scope.symbols.get? name = some symbol ∧ symbol.kind.isMember = false

/-- What stays of a scope for good. -/
structure Lasts (s s' : Scope) : Prop where
  parent : s'.parent = s.parent
  start : s'.start = s.start
  binds : ∀ name, s.Binds name → s'.Binds name

theorem Lasts.rfl (s : Scope) : s.Lasts s := ⟨Eq.refl _, Eq.refl _, fun _ h => h⟩

theorem Lasts.trans {s t u : Scope} (h : s.Lasts t) (h' : t.Lasts u) : s.Lasts u :=
  ⟨h'.parent.trans h.parent, h'.start.trans h.start, fun name hs => h'.binds name (h.binds name hs)⟩

theorem binds_insert {s : Scope} {name : String} {symbol : Symbol} (hk : symbol.kind.isMember = false)
    (h : s.Binds name ∨ symbol.name = name) :
    Binds { s with symbols := s.symbols.insert symbol.name symbol } name := by
  by_cases heq : symbol.name = name
  · exact ⟨symbol, by rw [Entries.get?_insert, if_pos heq], hk⟩
  · obtain ⟨other, hother, hk'⟩ := h.resolve_right heq
    exact ⟨other, by rw [Entries.get?_insert, if_neg heq, hother], hk'⟩

end Scope

/-- A scope of the tree binds a name. -/
def ScopeTree.Binds (tree : ScopeTree) (id : ScopeId) (name : String) : Prop :=
  ∃ s, tree.get? id = some s ∧ s.Binds name

namespace Binder

variable {b b' c : Binder}

/-- From one state to another every scope lasts, and but for the open one none is closed again. -/
structure Retains (b b' : Binder) : Prop where
  current : b'.current = b.current
  size : b.tree.size ≤ b'.tree.size
  lasts : ∀ id s, b.tree.get? id = some s →
    ∃ s', b'.tree.get? id = some s' ∧ s.Lasts s' ∧ (id ≠ b.current → s'.stop = s.stop)

/-- Wherever a scope is open, every scope lasts from one state to another. -/
def Keeps (b b' : Binder) : Prop := b.current < b.tree.size → b.Retains b'

/-- Two states differ in what the open scope holds at most. -/
structure Tunes (b b' : Binder) : Prop where
  current : b'.current = b.current
  size : b'.tree.size = b.tree.size
  others : ∀ id ≠ b.current, b'.tree.get? id = b.tree.get? id
  own : ∀ s, b.tree.get? b.current = some s →
    ∃ s', b'.tree.get? b.current = some s' ∧ s'.parent = s.parent ∧ s'.start = s.start

theorem Retains.valid (h : b.Retains b') (hb : b.current < b.tree.size) : b'.current < b'.tree.size := by
  rw [h.current]
  exact Nat.lt_of_lt_of_le hb h.size

theorem Retains.binds (h : b.Retains b') {id : ScopeId} {name : String} (hb : b.tree.Binds id name) :
    b'.tree.Binds id name := by
  obtain ⟨s, hs, hbinds⟩ := hb
  obtain ⟨s', hs', hlasts, -⟩ := h.lasts id s hs
  exact ⟨s', hs', hlasts.binds name hbinds⟩

theorem exists_current (hb : b.current < b.tree.size) : ∃ s, b.tree.get? b.current = some s :=
  ⟨_, Array.getElem?_eq_getElem hb⟩

/-! ### Changes of what the open scope holds -/

namespace Tunes

theorem rfl (b : Binder) : b.Tunes b :=
  ⟨Eq.refl _, Eq.refl _, fun _ _ => Eq.refl _, fun s hs => ⟨s, hs, Eq.refl _, Eq.refl _⟩⟩

theorem trans (h : b.Tunes b') (h' : b'.Tunes c) : b.Tunes c where
  current := h'.current.trans h.current
  size := h'.size.trans h.size
  others id hne := (h'.others id (h.current.symm ▸ hne)).trans (h.others id hne)
  own s hs := by
    obtain ⟨s', hs', hparent, hstart⟩ := h.own s hs
    obtain ⟨s'', hs'', hparent', hstart'⟩ := h'.own s' (h.current.symm ▸ hs')
    exact ⟨s'', h.current ▸ hs'', hparent'.trans hparent, hstart'.trans hstart⟩

theorem modify (b : Binder) {change : Scope → Scope}
    (h : ∀ s, (change s).parent = s.parent ∧ (change s).start = s.start) :
    b.Tunes { b with tree := b.tree.modify b.current change } where
  current := Eq.refl _
  size := ScopeTree.size_modify _
  others id hne := by rw [ScopeTree.get?_modify, if_neg (Ne.symm hne)]
  own s hs := ⟨change s, by rw [ScopeTree.get?_modify, if_pos (Eq.refl _), hs, Option.map_some], h s⟩

theorem setClass (b : Binder) (symbol : Symbol) : b.Tunes (b.setClass symbol) :=
  modify b fun _ => ⟨Eq.refl _, Eq.refl _⟩

theorem setFunction (b : Binder) (symbol : Option Symbol) (isStatic : Bool) :
    b.Tunes (b.setFunction symbol isStatic) := by
  cases symbol with
  | none => exact rfl b
  | some symbol => exact modify b fun _ => ⟨Eq.refl _, Eq.refl _⟩

theorem declareMembers (b : Binder) (symbol : Symbol) : b.Tunes (b.declareMembers symbol) := by
  have hdeclare : ∀ (b : Binder) name kind type, b.Tunes (b.declare b.current name kind type) := by
    intro b name kind type
    rw [declare]
    split
    · exact rfl b
    · exact modify b fun _ => ⟨Eq.refl _, Eq.refl _⟩
  rw [Binder.declareMembers]
  split
  · rename_i info _
    generalize info.members = members
    induction members generalizing b with
    | nil => exact rfl b
    | cons m members ih => exact (hdeclare ..).trans (ih _)
  · exact rfl b

end Tunes

/-! ### Steps that keep every scope -/

namespace Keeps

theorem rfl (b : Binder) : b.Keeps b :=
  fun _ => ⟨Eq.refl _, Nat.le_refl _, fun _ s hs => ⟨s, hs, .rfl s, fun _ => Eq.refl _⟩⟩

theorem trans (h : b.Keeps b') (h' : b'.Keeps c) : b.Keeps c := by
  intro hb
  have hretains := h hb
  have hretains' := h' (hretains.valid hb)
  refine ⟨hretains'.current.trans hretains.current, Nat.le_trans hretains.size hretains'.size, fun id s hs => ?_⟩
  obtain ⟨s', hs', hlasts, hstop⟩ := hretains.lasts id s hs
  obtain ⟨s'', hs'', hlasts', hstop'⟩ := hretains'.lasts id s' hs'
  exact ⟨s'', hs'', hlasts.trans hlasts', fun hne => (hstop' (hretains.current.symm ▸ hne)).trans (hstop hne)⟩

theorem modify (b : Binder) (id : ScopeId) {change : Scope → Scope}
    (h : ∀ s, b.tree.get? id = some s → s.Lasts (change s) ∧ (change s).stop = s.stop) :
    b.Keeps { b with tree := b.tree.modify id change } := by
  refine fun _ => ⟨Eq.refl _, Nat.le_of_eq (ScopeTree.size_modify _).symm, fun other s hs => ?_⟩
  dsimp only
  rw [ScopeTree.get?_modify, hs]
  by_cases heq : id = other
  · subst heq
    obtain ⟨hlasts, hstop⟩ := h s hs
    exact ⟨change s, if_pos (Eq.refl _), hlasts, fun _ => hstop⟩
  · exact ⟨s, if_neg heq, .rfl s, fun _ => Eq.refl _⟩

theorem define (b : Binder) (id : ScopeId) {symbol : Symbol} (hk : symbol.kind.isMember = false) :
    b.Keeps { b with tree := b.tree.define id symbol } :=
  modify b id fun _ _ => ⟨⟨Eq.refl _, Eq.refl _, fun _ h => Scope.binds_insert hk (.inl h)⟩, Eq.refl _⟩

theorem declare (b : Binder) (scope : ScopeId) (name : String) {kind : SymbolKind} (hk : kind.isMember = false)
    (type : Option Ty) : b.Keeps (b.declare scope name kind type) := by
  rw [Binder.declare]
  split
  · exact rfl b
  · exact define b scope hk

theorem retype (b : Binder) (id : ScopeId) (name : String) (type : Option Ty) :
    b.Keeps { b with tree := b.tree.retype id name type } := by
  rw [ScopeTree.retype]
  split
  · rename_i symbol hsymbol
    refine modify b id fun s hs => ⟨⟨Eq.refl _, Eq.refl _, fun other hother => ?_⟩, Eq.refl _⟩
    rw [ScopeTree.symbol?, hs, Option.bind_some] at hsymbol
    obtain ⟨found, hfound, hk⟩ := hother
    by_cases heq : name = other
    · subst heq
      cases hsymbol.symm.trans hfound
      exact ⟨{ symbol with type }, by rw [Entries.get?_insert, if_pos (Eq.refl _)], hk⟩
    · exact ⟨found, by rw [Entries.get?_insert, if_neg heq, hfound], hk⟩
  · exact rfl b

theorem hoist (b : Binder) (statements : List Node) : b.Keeps (b.hoist statements) := by
  rw [Binder.hoist]
  induction statements generalizing b with
  | nil => exact rfl b
  | cons n statements ih =>
    refine trans ?_ (ih _)
    dsimp only
    split
    · split
      · exact declare b _ _ (Eq.refl _) _
      · exact rfl b
    · exact rfl b

theorem refineResult (b : Binder) (declaredIn : ScopeId) (name : String) (scope : ScopeId)
    (parts : FunctionParts Node) : b.Keeps (b.refineResult declaredIn name scope parts) := by
  rw [Binder.refineResult]
  split
  · exact rfl b
  · split
    · exact retype b _ _ _
    · exact rfl b

theorem trackAssignment (b : Binder) (expression : Node) : b.Keeps (b.trackAssignment expression) := by
  rw [Binder.trackAssignment]
  split
  · split
    · split
      · dsimp only
        split
        · exact rfl b
        · exact retype b _ _ _
      · exact rfl b
    · exact rfl b
  · exact rfl b

end Keeps

/-- The scope that was just opened. -/
theorem Tunes.opened {kind : ScopeKind} {start : Nat} {above : Scope} (hc : (b.enter kind start).Tunes c)
    (habove : b.tree.get? b.current = some above) :
    c.current = b.tree.size ∧ c.tree.size = b.tree.size + 1 ∧ ∃ opened, c.tree.get? c.current = some opened ∧
      opened.parent = some b.current ∧ opened.start = max start above.start := by
  obtain ⟨hcurrent, hsize, hget⟩ := get?_enter kind start habove
  obtain ⟨opened, hopened, hparent, hstart⟩ := hc.own _ (by rw [hcurrent, hget, if_pos (Eq.refl _)])
  exact ⟨hc.current.trans hcurrent, hc.size.trans hsize, opened, by rw [hc.current, hopened], hparent, hstart⟩

/-- What a scope is once it is left: it starts where it was opened, ends no sooner than it was to,
and binds what was declared in it. What was there before stays. -/
theorem left_of_keeps {kind : ScopeKind} {start : Nat} (stop : Nat) {above : Scope}
    (hc : (b.enter kind start).Tunes c) (h : c.Keeps b') (habove : b.tree.get? b.current = some above) :
    b.Retains (b'.leave stop) ∧ ∃ own s, b'.tree.get? c.current = some own ∧
      (b'.leave stop).tree.get? c.current = some s ∧ s.start = max start above.start ∧ stop ≤ s.stop ∧
      ∀ name, own.Binds name → s.Binds name := by
  have hlt : b.current < b.tree.size := (Array.getElem?_eq_some_iff.1 habove).1
  obtain ⟨hcurrent, hsize, hget⟩ := get?_enter kind start habove
  obtain ⟨hc', hcsize, opened, hopened, hparent, hstart⟩ := hc.opened habove
  have hretains := h (by rw [hc', hcsize]; exact Nat.lt_succ_self _)
  obtain ⟨own, hown, hlasts, -⟩ := hretains.lasts _ opened hopened
  have hownparent : own.parent = some b.current := hlasts.parent.trans hparent
  have hown' : b'.tree.get? b'.current = some own := by rw [hretains.current, hown]
  obtain ⟨hback, hsize', hget'⟩ := get?_leave stop hown'
  refine ⟨⟨?_, ?_, fun id s hs => ?_⟩, own,
    { own with stop := max (max stop own.start) (b'.tree.lastStop own.children) }, hown,
    by rw [hget', if_pos hretains.current.symm], hlasts.start.trans hstart, ?_, fun _ h => h⟩
  · rw [hback, hownparent, Option.getD_some]
  · have := hretains.size
    omega
  · have hid : id < b.tree.size := (Array.getElem?_eq_some_iff.1 hs).1
    have hne : id ≠ c.current := hc'.symm ▸ Nat.ne_of_lt hid
    have hbefore : ∃ s₀, c.tree.get? id = some s₀ ∧ s.Lasts s₀ ∧ s₀.stop = s.stop := by
      rw [hc.others id (hcurrent.symm ▸ Nat.ne_of_lt hid), hget, if_neg (Nat.ne_of_lt hid)]
      split
      · rename_i heq
        subst heq
        cases hs.symm.trans habove
        exact ⟨_, rfl, ⟨rfl, rfl, fun _ h => h⟩, rfl⟩
      · exact ⟨s, hs, .rfl s, rfl⟩
    obtain ⟨s₀, hs₀, hlasts₀, hstop₀⟩ := hbefore
    obtain ⟨s', hs', hlasts', hstop'⟩ := hretains.lasts id s₀ hs₀
    refine ⟨s', ?_, hlasts₀.trans hlasts', fun _ => (hstop' hne).trans hstop₀⟩
    rw [hget', if_neg (hretains.current.symm ▸ hne), hs']
  · dsimp only
    omega

/-- **A walk in a scope of its own keeps the scopes around it.** -/
theorem Keeps.scope {kind : ScopeKind} {start stop : Nat} (hc : (b.enter kind start).Tunes c) (h : c.Keeps b') :
    b.Keeps (b'.leave stop) := by
  intro hb
  obtain ⟨above, habove⟩ := exists_current hb
  exact (left_of_keeps stop hc h habove).1

end Binder

/-! ### The whole walk -/

open Binder

mutual
theorem keeps_statement : ∀ (n : Node) (b : Binder), b.Keeps (statement n b)
  | ⟨range, kind⟩, b => by
    cases kind with
    | variableDeclaration kind declarations => exact keeps_declarators kind declarations b
    | functionDeclaration parts =>
      rw [statement]
      split
      · exact (keeps_function parts _ _ _ b).trans (.refineResult _ _ _ _ _)
      · exact keeps_function parts _ _ _ b
    | classDeclaration parts => exact .trans (.declare b _ _ rfl _) (keeps_classBody parts _ _)
    | expressionStatement n =>
      rw [statement]
      split
      · exact (keeps_expression n b).trans (.trackAssignment _ _)
      · exact keeps_expression n b
    | «return» argument => exact keeps_optional argument b
    | throw argument => exact keeps_expression argument b
    | block body => exact .scope (.rfl _) (.trans (.hoist _ body) (keeps_statements body _))
    | «if» test consequent alternate =>
      exact (keeps_expression test b).trans ((keeps_statement consequent _).trans (keeps_optionalStatement alternate _))
    | «while» test body => exact (keeps_expression test b).trans (keeps_statement body _)
    | doWhile body test => exact (keeps_expression test b).trans (keeps_statement body _)
    | «for» init test update body =>
      exact .scope (.rfl _) ((keeps_loopStart init _).trans ((keeps_optional test _).trans
        ((keeps_optional update _).trans (keeps_statement body _))))
    | forInOf left right body isOf =>
      have hright := keeps_expression right (b.enter .block range.start)
      obtain ⟨leftRange, leftKind⟩ := left
      cases leftKind with
      | variableDeclaration kind declarations =>
        exact .scope (.rfl _) (hright.trans ((keeps_loopTargets _ _ kind declarations _).trans (keeps_statement body _)))
      | _ => exact .scope (.rfl _) (hright.trans ((keeps_expression _ _).trans (keeps_statement body _)))
    | switch discriminant branches =>
      exact (keeps_expression discriminant b).trans (.scope (.rfl _) (keeps_cases branches _))
    | «try» block handler finalizer =>
      exact (keeps_statement block b).trans ((keeps_catchClause handler _).trans (keeps_optionalStatement finalizer _))
    | _ => exact .rfl b

theorem keeps_statements : ∀ (l : List Node) (b : Binder), b.Keeps (statements l b)
  | [], b => .rfl b
  | n :: rest, b => (keeps_statement n b).trans (keeps_statements rest _)

theorem keeps_optionalStatement : ∀ (o : Option Node) (b : Binder), b.Keeps (optionalStatement o b)
  | none, b => .rfl b
  | some n, b => keeps_statement n b

theorem keeps_loopStart : ∀ (o : Option Node) (b : Binder), b.Keeps (loopStart o b)
  | none, b => .rfl b
  | some ⟨_, kind⟩, b => by
    cases kind with
    | variableDeclaration kind declarations => exact keeps_declarators kind declarations b
    | _ => exact keeps_expression _ b

theorem keeps_loopTargets (scope : ScopeId) (iterated : Ty) (kind : VariableKind) : ∀ (l : List Node) (b : Binder),
    b.Keeps (loopTargets scope iterated kind l b)
  | [], b => .rfl b
  | ⟨_, declaration⟩ :: rest, b => by
    cases declaration with
    | variableDeclarator target init =>
      exact (keeps_pattern scope _ (by cases kind <;> rfl) target b).trans (keeps_loopTargets scope iterated kind rest _)
    | _ => exact keeps_loopTargets scope iterated kind rest b

theorem keeps_cases : ∀ (l : List Node) (b : Binder), b.Keeps (Binder.cases l b)
  | [], b => .rfl b
  | ⟨_, branch⟩ :: rest, b => by
    cases branch with
    | switchCase test consequent =>
      exact (keeps_optional test b).trans (.trans (.hoist _ consequent)
        ((keeps_statements consequent _).trans (keeps_cases rest _)))
    | _ => exact keeps_cases rest b

theorem keeps_catchClause : ∀ (o : Option Node) (b : Binder), b.Keeps (catchClause o b)
  | none, b => .rfl b
  | some ⟨_, kind⟩, b => by
    cases kind with
    | catchClause param body =>
      obtain ⟨bodyRange, bodyKind⟩ := body
      cases bodyKind with
      | block body =>
        exact .scope (.rfl _) (.trans (.declare _ _ _ rfl _) (.trans (.hoist _ body) (keeps_statements body _)))
      | _ => exact .rfl b
    | _ => exact .rfl b

theorem keeps_declarators (kind : VariableKind) : ∀ (l : List Node) (b : Binder), b.Keeps (declarators kind l b)
  | [], b => .rfl b
  | ⟨_, declaration⟩ :: rest, b => by
    cases declaration with
    | variableDeclarator target init =>
      have hk : kind.symbolKind.isMember = false := by cases kind <;> rfl
      rw [declarators]
      split
      · exact .trans (.declare b _ _ hk _) ((keeps_classValue _ init _).trans (keeps_declarators kind rest _))
      · exact (keeps_pattern _ _ hk target b).trans ((keeps_optional init _).trans (keeps_declarators kind rest _))
    | _ => exact keeps_declarators kind rest b

theorem keeps_classValue (symbol : Symbol) : ∀ (o : Option Node) (b : Binder), b.Keeps (classValue symbol o b)
  | none, b => .rfl b
  | some n, b => keeps_parenthesizedClass symbol n b

theorem keeps_parenthesizedClass (symbol : Symbol) : ∀ (n : Node) (b : Binder), b.Keeps (parenthesizedClass symbol n b)
  | ⟨_, kind⟩, b => by
    cases kind with
    | parenthesized inner => exact keeps_parenthesizedClass symbol inner b
    | classExpression parts => exact keeps_classBody parts symbol b
    | _ => exact .rfl b

theorem keeps_pattern (scope : ScopeId) (source : Option Ty) {kind : SymbolKind} (hk : kind.isMember = false) :
    ∀ (n : Node) (b : Binder), b.Keeps (pattern scope source kind n b)
  | ⟨_, nodeKind⟩, b => by
    cases nodeKind with
    | identifier name => exact .declare b scope name hk source
    | objectLiteral items => exact keeps_propertyPatterns scope source hk items b
    | arrayLiteral items => exact keeps_elementPatterns scope _ hk items b
    | assignment operator target value => exact (keeps_expression value b).trans (keeps_pattern scope _ hk target _)
    | _ => exact .rfl b

theorem keeps_propertyPatterns (scope : ScopeId) (source : Option Ty) {kind : SymbolKind} (hk : kind.isMember = false) :
    ∀ (l : List Node) (b : Binder), b.Keeps (propertyPatterns scope source kind l b)
  | [], b => .rfl b
  | ⟨_, item⟩ :: rest, b => by
    cases item with
    | property key value computed shorthand method =>
      exact (keeps_pattern scope _ hk value b).trans (keeps_propertyPatterns scope source hk rest _)
    | spread argument =>
      exact (keeps_pattern scope _ hk argument b).trans (keeps_propertyPatterns scope source hk rest _)
    | _ => exact keeps_propertyPatterns scope source hk rest b

theorem keeps_elementPatterns (scope : ScopeId) (element : Option Ty) {kind : SymbolKind} (hk : kind.isMember = false) :
    ∀ (l : List Node) (b : Binder), b.Keeps (elementPatterns scope element kind l b)
  | [], b => .rfl b
  | ⟨_, item⟩ :: rest, b => by
    cases item with
    | spread argument =>
      exact (keeps_pattern scope _ hk argument b).trans (keeps_elementPatterns scope element hk rest _)
    | _ => exact (keeps_pattern scope _ hk _ b).trans (keeps_elementPatterns scope element hk rest _)

theorem keeps_parameters : ∀ (l : List Node) (b : Binder), b.Keeps (parameters l b)
  | [], b => .rfl b
  | ⟨_, parameter⟩ :: rest, b => by
    cases parameter with
    | parameter name target fallback isRest =>
      cases target with
      | some target =>
        exact (keeps_optional fallback b).trans ((keeps_pattern _ _ rfl target _).trans (keeps_parameters rest _))
      | none => exact (keeps_optional fallback b).trans (.trans (.declare _ _ _ rfl _) (keeps_parameters rest _))
    | _ => exact keeps_parameters rest b

theorem keeps_function : ∀ (parts : FunctionParts Node) (start : Nat) (symbol : Option Symbol) (isStatic : Bool)
    (b : Binder), b.Keeps (function parts start symbol isStatic b)
  | ⟨_, params, ⟨_, kind⟩, _⟩, start, symbol, isStatic, b => by
    cases kind with
    | block body =>
      exact .scope (.setFunction _ symbol isStatic) ((keeps_parameters params _).trans (.trans (.hoist _ body)
        (keeps_statements body _)))
    | _ => exact .scope (.setFunction _ symbol isStatic) ((keeps_parameters params _).trans (keeps_statement _ _))

theorem keeps_classBody : ∀ (parts : ClassParts Node) (symbol : Symbol) (b : Binder), b.Keeps (classBody parts symbol b)
  | ⟨_, superclass, members, _⟩, symbol, b =>
    (keeps_optional superclass b).trans (.scope ((Tunes.declareMembers _ symbol).trans (.setClass _ symbol))
      (keeps_classElements members _))

theorem keeps_classElements : ∀ (l : List Node) (b : Binder), b.Keeps (classElements l b)
  | [], b => .rfl b
  | ⟨_, element⟩ :: rest, b => by
    cases element with
    | methodMember key kind isStatic value =>
      obtain ⟨range, kind⟩ := value
      cases kind with
      | functionExpression parts => exact (keeps_function parts _ _ isStatic b).trans (keeps_classElements rest _)
      | _ => exact keeps_classElements rest b
    | fieldMember key value isStatic => exact (keeps_optional value b).trans (keeps_classElements rest _)
    | _ => exact keeps_classElements rest b

theorem keeps_expression : ∀ (n : Node) (b : Binder), b.Keeps (expression n b)
  | ⟨range, kind⟩, b => by
    cases kind with
    | arrowFunction params body isAsync =>
      have hparams := keeps_parameters params (b.enter .arrow range.start)
      obtain ⟨bodyRange, bodyKind⟩ := body
      cases bodyKind with
      | block body => exact .scope (.rfl _) (hparams.trans (.trans (.hoist _ body) (keeps_statements body _)))
      | _ => exact .scope (.rfl _) (hparams.trans (keeps_expression _ _))
    | functionExpression parts =>
      rw [expression]
      split
      · exact (keeps_function parts _ _ _ b).trans (.define _ _ rfl)
      · exact keeps_function parts _ _ _ b
    | classExpression parts => exact keeps_classBody parts _ b
    | member object property computed chained =>
      rw [expression]
      split
      · exact (keeps_expression object b).trans (keeps_expression property _)
      · exact keeps_expression object b
    | call callee arguments chained => exact (keeps_expression callee b).trans (keeps_expressions arguments _)
    | new callee arguments => exact (keeps_expression callee b).trans (keeps_expressions arguments _)
    | binary operator left right => exact (keeps_expression left b).trans (keeps_expression right _)
    | logical operator left right => exact (keeps_expression left b).trans (keeps_expression right _)
    | assignment operator left right => exact (keeps_expression left b).trans (keeps_expression right _)
    | unary operator argument => exact keeps_expression argument b
    | update operator isPrefix argument => exact keeps_expression argument b
    | spread argument => exact keeps_expression argument b
    | parenthesized inner => exact keeps_expression inner b
    | conditional test consequent alternate =>
      exact (keeps_expression test b).trans ((keeps_expression consequent _).trans (keeps_expression alternate _))
    | sequence items => exact keeps_expressions items b
    | arrayLiteral items => exact keeps_expressions items b
    | objectLiteral items => exact keeps_properties items b
    | _ => exact .rfl b

theorem keeps_optional : ∀ (o : Option Node) (b : Binder), b.Keeps (Binder.optional o b)
  | none, b => .rfl b
  | some n, b => keeps_expression n b

theorem keeps_expressions : ∀ (l : List Node) (b : Binder), b.Keeps (expressions l b)
  | [], b => .rfl b
  | n :: rest, b => (keeps_expression n b).trans (keeps_expressions rest _)

theorem keeps_properties : ∀ (l : List Node) (b : Binder), b.Keeps (properties l b)
  | [], b => .rfl b
  | ⟨_, item⟩ :: rest, b => by
    cases item with
    | property key value computed shorthand method =>
      cases computed with
      | false => exact (keeps_expression value b).trans (keeps_properties rest _)
      | true => exact (keeps_expression key b).trans ((keeps_expression value _).trans (keeps_properties rest _))
    | _ => exact (keeps_expression _ b).trans (keeps_properties rest _)
end

theorem statements_append : ∀ (l l' : List Node) (b : Binder), statements (l ++ l') b = statements l' (statements l b)
  | [], _, _ => rfl
  | n :: l, l', b => statements_append l l' (statement n b)

end Typeahead
