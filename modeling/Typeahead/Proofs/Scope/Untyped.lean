/-
# What does not depend on types

The binder evaluates expressions as it goes, and what it knows at one point changes the types that it
records later. But a type only ever becomes the type of a symbol, and the name of the symbol is read off
the tree, as is where its scope lies. So two runs over the same tree in which different types are known
open the same scopes and declare the same names in them, in the same order. Only the members of a class
come with its type; but which members it has, the elements of the class tell.

Key definitions: `ScopeLayout`, `ScopeTree.layout`, `Binder.SameLayout`, `Symbol.memberNames`.
Key theorems: `Evaluator.keys_classInfo`, `Binder.SameLayout.enter`, `Binder.SameLayout.trackAssignments`,
`sameLayout_statement`, `layout_bindText`.
-/
import Typeahead.Proofs.Hoisting.Names

namespace Typeahead

/-- What is left of a scope without what is known of the names in it. -/
structure ScopeLayout where
  kind : ScopeKind
  parent : Option ScopeId
  children : List ScopeId
  start : Nat
  stop : Nat
  depth : Nat
  names : List String
  deriving DecidableEq, Repr

/-- The layout of a scope. -/
def Scope.layout (scope : Scope) : ScopeLayout :=
  ⟨scope.kind, scope.parent, scope.children, scope.start, scope.stop, scope.depth, scope.symbols.keys⟩

/-- The names of the members of a symbol that is a class. -/
def Symbol.memberNames (symbol : Symbol) : List String :=
  match symbol.type with
  | some (.class info) => info.members.map (·.name)
  | _ => []

/-! ### The members of a class -/

namespace ClassInfo

variable {τ : Type}

/-- The names of the members of a class, each with the side it is on. -/
def keys (info : ClassInfo τ) : List (String × Bool) := info.members.map fun m => (m.name, m.isStatic)

theorem keys_addMember (info : ClassInfo τ) (m : ClassMember τ) : (info.addMember m).keys =
    if (m.name, m.isStatic) ∈ info.keys then info.keys else info.keys ++ [(m.name, m.isStatic)] := by
  have hmem : info.hasMember m.name m.isStatic = true ↔ (m.name, m.isStatic) ∈ info.keys := by
    simp [hasMember, keys]
  rw [addMember]
  by_cases h : info.hasMember m.name m.isStatic = true
  · rw [if_pos h, if_pos (hmem.1 h)]
  · rw [if_neg h, if_neg fun hm => h (hmem.2 hm)]
    simp [keys]

theorem keys_replaceMember (info : ClassInfo τ) (m : ClassMember τ) : (info.replaceMember m).keys =
    (info.keys.filter fun key => key.1 != m.name || key.2 != m.isStatic) ++ [(m.name, m.isStatic)] := by
  simp only [replaceMember, keys, List.map_append, List.map_cons, List.map_nil, List.filter_map]
  rfl

/-- Members of the same names on the same side, whatever their types are. -/
theorem keys_foldl_addMember (isStatic : Bool) (kind : MemberKind) {α : Type} (value value' : α → τ) :
    ∀ (l : Entries α) {info info' : ClassInfo τ}, info.keys = info'.keys →
      (l.foldl (fun found entry => found.addMember ⟨entry.1, kind, isStatic, value entry.2⟩) info).keys =
        (l.foldl (fun found entry => found.addMember ⟨entry.1, kind, isStatic, value' entry.2⟩) info').keys
  | [], _, _, h => h
  | entry :: rest, _, _, h =>
    keys_foldl_addMember isStatic kind value value' rest (by rw [keys_addMember, keys_addMember, h])

end ClassInfo

namespace Evaluator

variable {eval eval' : Evaluator} {env env' : TypeEnvironment} {info info' : ClassInfo Ty}

theorem keys_addMethod (h : info.keys = info'.keys) (key : String) (kind : MethodKind) (isStatic : Bool)
    (parts : FunctionParts Node) :
    (addMethod eval env info key kind isStatic parts).keys =
      (addMethod eval' env' info' key kind isStatic parts).keys := by
  refine ClassInfo.keys_foldl_addMember isStatic .property _ _ _ ?_
  cases kind with
  | constructor => exact h
  | _ => rw [ClassInfo.keys_addMember, ClassInfo.keys_addMember, h]

theorem keys_addField (h : info.keys = info'.keys) {value value' : Node → Ty} (key : String) (field : Option Node)
    (isStatic : Bool) :
    (addField value info key field isStatic).keys = (addField value' info' key field isStatic).keys := by
  have hkeys : ∀ (value : Node → Ty) (info : ClassInfo Ty), (addField value info key field isStatic).keys =
      (info.keys.filter fun k => k.1 != key || k.2 != isStatic) ++ [(key, isStatic)] := by
    intro value info
    rw [addField]
    split <;> rw [ClassInfo.keys_replaceMember]
  rw [hkeys, hkeys, h]

/-- **Which members a class has** does not depend on what is known around it. -/
theorem keys_classInfo (eval eval' : Evaluator) (env env' : TypeEnvironment) (parts : ClassParts Node) (name : String) :
    (classInfo eval env parts name).keys = (classInfo eval' env' parts name).keys := by
  rw [classInfo, classInfo]
  have helements : ∀ (l : List Node) {info info' : ClassInfo Ty}, info.keys = info'.keys →
      (l.foldl (addElement eval env) info).keys = (l.foldl (addElement eval' env') info').keys := by
    intro l
    induction l with
    | nil => exact fun h => h
    | cons element rest ih =>
      intro info info' h
      refine ih ?_
      rw [addElement, addElement]
      split
      · exact keys_addMethod h ..
      · exact keys_addField h ..
      · exact h
  exact helements _ rfl

end Evaluator

namespace ScopeTree

variable {t t' : ScopeTree} {id : ScopeId}

/-- The layouts of the scopes, in the order in which they were opened. -/
def layout (tree : ScopeTree) : Array ScopeLayout := tree.scopes.map Scope.layout

theorem getElem?_layout (tree : ScopeTree) (id : ScopeId) : tree.layout[id]? = (tree.get? id).map Scope.layout :=
  Array.getElem?_map

theorem size_layout (tree : ScopeTree) : tree.layout.size = tree.size := Array.size_map

theorem layout_ext (h : ∀ id, (t.get? id).map Scope.layout = (t'.get? id).map Scope.layout) : t.layout = t'.layout :=
  Array.ext_getElem? fun id => by rw [getElem?_layout, getElem?_layout, h]

theorem get?_of_layout (h : t.layout = t'.layout) (id : ScopeId) :
    (t.get? id).map Scope.layout = (t'.get? id).map Scope.layout := by
  rw [← getElem?_layout, h, getElem?_layout]

theorem size_of_layout (h : t.layout = t'.layout) : t.size = t'.size := by
  rw [← size_layout, h, size_layout]

theorem get?_eq_none_of_layout (h : t.layout = t'.layout) (hs : t.get? id = none) : t'.get? id = none := by
  have hget := get?_of_layout h id
  rw [hs] at hget
  exact Option.map_eq_none_iff.1 hget.symm

theorem get?_eq_some_of_layout (h : t.layout = t'.layout) {s : Scope} (hs : t.get? id = some s) :
    ∃ s', t'.get? id = some s' ∧ s'.layout = s.layout := by
  have hget := get?_of_layout h id
  rw [hs] at hget
  exact Option.map_eq_some_iff.1 hget.symm

/-- What is read off the layout of a scope is the same in two trees of one layout. -/
theorem read_of_layout (h : t.layout = t'.layout) {α : Type} (read : ScopeLayout → α) (id : ScopeId) :
    (t.get? id).map (fun s => read s.layout) = (t'.get? id).map fun s => read s.layout := by
  have hget := congrArg (Option.map read) (get?_of_layout h id)
  rwa [Option.map_map, Option.map_map] at hget

/-- Two trees of one layout in which a scope is changed alike. -/
theorem layout_modify (h : t.layout = t'.layout) {change change' : Scope → Scope}
    (hc : ∀ s s', s.layout = s'.layout → (change s).layout = (change' s').layout) :
    (t.modify id change).layout = (t'.modify id change').layout := by
  refine layout_ext fun other => ?_
  rw [get?_modify, get?_modify]
  split
  · cases hs : t.get? other with
    | none =>
      rw [get?_eq_none_of_layout h hs]
      rfl
    | some s =>
      obtain ⟨s', hs', hlayout⟩ := get?_eq_some_of_layout h hs
      rw [hs']
      exact congrArg some (hc s s' hlayout.symm)
  · exact get?_of_layout h other

theorem layout_modify_same (change : Scope → Scope) (hc : ∀ s, t.get? id = some s → (change s).layout = s.layout) :
    (t.modify id change).layout = t.layout := by
  refine layout_ext fun other => ?_
  rw [get?_modify]
  split
  · rename_i heq
    subst heq
    rw [Option.map_map]
    exact Option.map_congr hc
  · rfl

theorem layout_define (h : t.layout = t'.layout) (id : ScopeId) {symbol symbol' : Symbol}
    (hname : symbol.name = symbol'.name) :
    (t.define id symbol).layout = (t'.define id symbol').layout := by
  refine layout_modify h fun s s' hs => ?_
  simp only [Scope.layout, ScopeLayout.mk.injEq, Entries.keys_insert, hname] at hs ⊢
  obtain ⟨h1, h2, h3, h4, h5, h6, h7⟩ := hs
  exact ⟨h1, h2, h3, h4, h5, h6, by rw [h7]⟩

/-- Another type for a symbol is no other name. -/
theorem layout_retype (tree : ScopeTree) (id : ScopeId) (name : String) (type : Option Ty) :
    (tree.retype id name type).layout = tree.layout := by
  rw [retype]
  split
  · rename_i symbol hsymbol
    refine layout_modify_same _ fun s hs => ?_
    have hget : s.symbols.get? name = some symbol := by
      rw [symbol?, hs] at hsymbol
      exact hsymbol
    have hmem : name ∈ s.symbols.keys := List.mem_map_of_mem (Entries.mem_of_get? hget)
    simp only [Scope.layout, Entries.keys_insert, if_pos hmem]
  · rfl

theorem layout_setClass (tree : ScopeTree) (id : ScopeId) (symbol : Symbol) :
    (tree.setClass id symbol).layout = tree.layout := by
  rw [ScopeTree.setClass]
  exact layout_modify_same _ fun _ _ => rfl

theorem layout_setFunction (tree : ScopeTree) (id : ScopeId) (symbol : Symbol) (isStatic : Bool) :
    (tree.setFunction id symbol isStatic).layout = tree.layout := by
  rw [ScopeTree.setFunction]
  exact layout_modify_same _ fun _ _ => rfl

theorem lastStop_of_layout (h : t.layout = t'.layout) (ids : List ScopeId) : t.lastStop ids = t'.lastStop ids := by
  have hstop : (fun (last : Nat) id => max last (((t.get? id).map (·.stop)).getD 0)) =
      fun last id => max last (((t'.get? id).map (·.stop)).getD 0) := by
    funext last id
    rw [show (t.get? id).map (·.stop) = (t'.get? id).map (·.stop) from read_of_layout h (·.stop) id]
  rw [lastStop, hstop, lastStop]

theorem layout_close (h : t.layout = t'.layout) (id : ScopeId) (stop : Nat) :
    (t.close id stop).layout = (t'.close id stop).layout := by
  refine layout_modify h fun s s' hs => ?_
  simp only [Scope.layout, ScopeLayout.mk.injEq] at hs ⊢
  obtain ⟨h1, h2, h3, h4, h5, h6, h7⟩ := hs
  exact ⟨h1, h2, h3, h4, by rw [h3, h4, lastStop_of_layout h], h6, h7⟩

theorem ancestorsWithin_of_layout (h : t.layout = t'.layout) : ∀ (steps : Nat) (id : ScopeId),
    t.ancestorsWithin steps id = t'.ancestorsWithin steps id
  | 0, _ => rfl
  | steps + 1, id => by
    rw [ancestorsWithin, ancestorsWithin]
    cases hs : t.get? id with
    | none => rw [get?_eq_none_of_layout h hs]
    | some s =>
      obtain ⟨s', hs', hlayout⟩ := get?_eq_some_of_layout h hs
      have hparent : s'.parent = s.parent := congrArg ScopeLayout.parent hlayout
      rw [hs']
      simp only [hparent]
      cases s.parent with
      | none => rfl
      | some parent => exact congrArg (id :: ·) (ancestorsWithin_of_layout h steps parent)

end ScopeTree

namespace Binder

open ScopeTree

variable {b b' c c' : Binder}

/-- Two states in which the same scopes are open and hold the same names. -/
structure SameLayout (b b' : Binder) : Prop where
  current : b.current = b'.current
  layout : b.tree.layout = b'.tree.layout

namespace SameLayout

/-- A change that shows in no layout may be made in one of two states or in both. -/
theorem congr (h : b.SameLayout b') (hc : b.SameLayout c) (hc' : b'.SameLayout c') : c.SameLayout c' :=
  ⟨hc.current.symm.trans (h.current.trans hc'.current), hc.layout.symm.trans (h.layout.trans hc'.layout)⟩

theorem define (h : b.SameLayout b') {id id' : ScopeId} (hid : id = id') {symbol symbol' : Symbol}
    (hname : symbol.name = symbol'.name) :
    SameLayout { b with tree := b.tree.define id symbol } { b' with tree := b'.tree.define id' symbol' } :=
  ⟨h.current, hid ▸ layout_define h.layout id hname⟩

theorem declare (h : b.SameLayout b') {scope scope' : ScopeId} (hscope : scope = scope') (name : String)
    (kind kind' : SymbolKind) (type type' : Option Ty) :
    (b.declare scope name kind type).SameLayout (b'.declare scope' name kind' type') := by
  rw [Binder.declare, Binder.declare]
  split
  · exact h
  · exact h.define hscope rfl

theorem variableScope (h : b.SameLayout b') : b.variableScope = b'.variableScope := by
  have howns : (fun id => ((b.tree.get? id).map (·.kind.ownsVariables)).getD false) =
      fun id => ((b'.tree.get? id).map (·.kind.ownsVariables)).getD false := by
    funext id
    exact congrArg (·.getD false) (read_of_layout h.layout (·.kind.ownsVariables) id)
  rw [Binder.variableScope, Binder.variableScope, howns, ancestors, ancestors, ancestorsWithin_of_layout h.layout,
    h.current]

theorem declarationScope (h : b.SameLayout b') (kind : VariableKind) :
    b.declarationScope kind = b'.declarationScope kind := by
  cases kind with
  | varKind => exact h.variableScope
  | letKind | constKind => exact h.current

theorem hoist (h : b.SameLayout b') (l : List Node) : (b.hoist l).SameLayout (b'.hoist l) := by
  rw [Binder.hoist, Binder.hoist]
  induction l generalizing b b' with
  | nil => exact h
  | cons n rest ih =>
    refine ih ?_
    obtain ⟨range, kind⟩ := n
    cases kind with
    | functionDeclaration parts =>
      obtain ⟨name, params, body, isAsync⟩ := parts
      cases name with
      | none => exact h
      | some name => exact h.declare h.current name ..
    | _ => exact h

/-- The members of two classes that have the same. -/
theorem declareMembers (h : b.SameLayout b') {symbol symbol' : Symbol} (hm : symbol.memberNames = symbol'.memberNames) :
    (b.declareMembers symbol).SameLayout (b'.declareMembers symbol') := by
  have hmembers : ∀ (l l' : List (ClassMember Ty)) {b b' : Binder}, l.map (·.name) = l'.map (·.name) →
      b.SameLayout b' →
      (l.foldl (fun b m => b.declare b.current m.name (.ofMember m.kind) (some m.type)) b).SameLayout
        (l'.foldl (fun b m => b.declare b.current m.name (.ofMember m.kind) (some m.type)) b') := by
    intro l
    induction l with
    | nil =>
      intro l' b b' hl h
      rw [List.map_eq_nil_iff.1 hl.symm]
      exact h
    | cons m rest ih =>
      intro l' b b' hl h
      obtain ⟨m', rest', rfl, hname, hrest⟩ := List.map_eq_cons_iff.1 hl.symm
      obtain ⟨name', kind', isStatic', type'⟩ := m'
      obtain rfl : name' = m.name := hname
      exact ih rest' hrest.symm (h.declare h.current m.name ..)
  have hfold : ∀ (symbol : Symbol) (b : Binder), ∃ l : List (ClassMember Ty), l.map (·.name) = symbol.memberNames ∧
      b.declareMembers symbol = l.foldl (fun b m => b.declare b.current m.name (.ofMember m.kind) (some m.type)) b := by
    intro symbol b
    obtain ⟨name, kind, type⟩ := symbol
    cases type with
    | none => exact ⟨[], rfl, rfl⟩
    | some type =>
      cases type with
      | «class» info => exact ⟨info.members, rfl, rfl⟩
      | _ => exact ⟨[], rfl, rfl⟩
  obtain ⟨l, hl, heq⟩ := hfold symbol b
  obtain ⟨l', hl', heq'⟩ := hfold symbol' b'
  rw [heq, heq']
  exact hmembers l l' (hl.trans (hm.trans hl'.symm)) h

theorem setClass (h : b.SameLayout b') (symbol symbol' : Symbol) :
    (b.setClass symbol).SameLayout (b'.setClass symbol') :=
  h.congr ⟨rfl, (layout_setClass ..).symm⟩ ⟨rfl, (layout_setClass ..).symm⟩

theorem setFunction (h : b.SameLayout b') (symbol symbol' : Option Symbol) (isStatic isStatic' : Bool) :
    (b.setFunction symbol isStatic).SameLayout (b'.setFunction symbol' isStatic') := by
  have hone : ∀ (b : Binder) symbol isStatic, b.SameLayout (b.setFunction symbol isStatic) := by
    intro b symbol isStatic
    cases symbol with
    | none => exact ⟨rfl, rfl⟩
    | some symbol => exact ⟨rfl, (layout_setFunction ..).symm⟩
  exact h.congr (hone ..) (hone ..)

theorem enter (h : b.SameLayout b') (kind : ScopeKind) (start : Nat) :
    (b.enter kind start).SameLayout (b'.enter kind start) := by
  have hsize := size_of_layout h.layout
  cases habove : b.tree.get? b.current with
  | none =>
    have habove' : b'.tree.get? b'.current = none := h.current ▸ get?_eq_none_of_layout h.layout habove
    rw [enter_of_none habove, enter_of_none habove']
    exact h
  | some above =>
    obtain ⟨above', habove', hlayout⟩ := get?_eq_some_of_layout h.layout habove
    obtain ⟨hcurrent, -, hget⟩ := get?_enter kind start habove
    obtain ⟨hcurrent', -, hget'⟩ := get?_enter kind start (h.current ▸ habove')
    refine ⟨hcurrent.trans (hsize.trans hcurrent'.symm), layout_ext fun id => ?_⟩
    simp only [Scope.layout, ScopeLayout.mk.injEq] at hlayout
    obtain ⟨h1, h2, h3, h4, h5, h6, h7⟩ := hlayout
    rw [hget, hget', ← hsize, ← h.current]
    split
    · simp only [Option.map_some, Scope.layout, Scope.opened, h4, h6]
    · split
      · simp only [Option.map_some, Scope.layout, h1, h2, h3, h4, h5, h6, h7]
      · exact get?_of_layout h.layout id

theorem leave (h : b.SameLayout b') (stop : Nat) : (b.leave stop).SameLayout (b'.leave stop) := by
  have hparent : (b.tree.get? b.current).bind (·.parent) = (b'.tree.get? b.current).bind (·.parent) := by
    cases hs : b.tree.get? b.current with
    | none => rw [get?_eq_none_of_layout h.layout hs]
    | some s =>
      obtain ⟨s', hs', hlayout⟩ := get?_eq_some_of_layout h.layout hs
      rw [hs']
      exact (congrArg ScopeLayout.parent hlayout).symm
  rw [Binder.leave, Binder.leave, hparent, ← h.current]
  exact ⟨rfl, layout_close h.layout ..⟩

theorem refineResult (h : b.SameLayout b') (scope scope' : ScopeId) (name name' : String) (own own' : ScopeId)
    (parts parts' : FunctionParts Node) :
    (b.refineResult scope name own parts).SameLayout (b'.refineResult scope' name' own' parts') := by
  have hone : ∀ (b : Binder) scope name own parts, b.SameLayout (b.refineResult scope name own parts) := by
    intro b scope name own parts
    rw [Binder.refineResult]
    split
    · exact ⟨rfl, rfl⟩
    · split
      · exact ⟨rfl, (layout_retype ..).symm⟩
      · exact ⟨rfl, rfl⟩
  exact h.congr (hone ..) (hone ..)

/-- **Assignments may be tracked in one of two runs** and not in the other. -/
theorem trackAssignments (h : b.SameLayout b') (n : Node) :
    SameLayout (if b.tracksAssignments then b.trackAssignment n else b)
      (if b'.tracksAssignments then b'.trackAssignment n else b') := by
  have hone : ∀ b : Binder, b.SameLayout (if b.tracksAssignments then b.trackAssignment n else b) := by
    intro b
    split
    · rcases trackAssignment_cases b n with heq | ⟨name, owner, symbol, type, -, -, heq⟩
      · rw [heq]
        exact ⟨rfl, rfl⟩
      · rw [heq]
        exact ⟨rfl, (layout_retype ..).symm⟩
    · exact ⟨rfl, rfl⟩
  exact h.congr (hone b) (hone b')

end SameLayout

theorem memberNames_classSymbol (b b' : Binder) (parts : ClassParts Node) (name : String) :
    (b.classSymbol parts name).memberNames = (b'.classSymbol parts name).memberNames := by
  have hkeys := congrArg (List.map Prod.fst)
    (Evaluator.keys_classInfo Node.typeIn Node.typeIn b.environment b'.environment parts name)
  rwa [ClassInfo.keys, ClassInfo.keys, List.map_map, List.map_map] at hkeys

end Binder

/-! ### The walk -/

open Binder

-- Types, sources and symbols are free on both sides: no scope and no name comes from them. Only a class
-- body asks that its two symbols have the same members, which it declares.
mutual
/-- **A statement** opens the same scopes and declares the same names whatever is known. -/
theorem sameLayout_statement : ∀ (n : Node) {b b' : Binder}, b.SameLayout b' →
    (statement n b).SameLayout (statement n b')
  | ⟨range, kind⟩, b, b', h => by
    cases kind with
    | variableDeclaration kind declarations => exact sameLayout_declarators kind declarations h
    | functionDeclaration parts =>
      obtain ⟨name, params, body, isAsync⟩ := parts
      have hbound : ∀ symbol symbol', (function ⟨name, params, body, isAsync⟩ range.start symbol false b).SameLayout
          (function ⟨name, params, body, isAsync⟩ range.start symbol' false b') := fun symbol symbol' =>
        sameLayout_function ⟨name, params, body, isAsync⟩ range.start symbol symbol' false h
      cases name with
      | none => exact hbound ..
      | some name => exact (hbound ..).refineResult ..
    | classDeclaration parts =>
      have hdeclared := h.declare h.current (parts.name.getD "") .classType .classType
        (b.classSymbol parts (parts.name.getD "")).type (b'.classSymbol parts (parts.name.getD "")).type
      exact sameLayout_classBody parts (memberNames_classSymbol b b' parts _) hdeclared
    | expressionStatement n => exact (sameLayout_expression n h).trackAssignments n
    | «return» argument => exact sameLayout_optional argument h
    | throw argument => exact sameLayout_expression argument h
    | block body => exact (sameLayout_statements body ((h.enter .block range.start).hoist body)).leave range.stop
    | «if» test consequent alternate =>
      exact sameLayout_optionalStatement alternate (sameLayout_statement consequent (sameLayout_expression test h))
    | «while» test body => exact sameLayout_statement body (sameLayout_expression test h)
    | doWhile body test => exact sameLayout_statement body (sameLayout_expression test h)
    | «for» init test update body =>
      have hinit := sameLayout_loopStart init (h.enter .block range.start)
      have hhead := sameLayout_optional update (sameLayout_optional test hinit)
      exact (sameLayout_statement body hhead).leave range.stop
    | forInOf left right body isOf =>
      have hright := sameLayout_expression right (h.enter .block range.start)
      have hleft := sameLayout_expression left hright
      obtain ⟨leftRange, leftKind⟩ := left
      cases leftKind with
      | variableDeclaration kind declarations =>
        have htargets := fun iterated iterated' =>
          sameLayout_loopTargets (hright.declarationScope kind) iterated iterated' kind declarations hright
        exact (sameLayout_statement body (htargets ..)).leave range.stop
      | _ => exact (sameLayout_statement body hleft).leave range.stop
    | switch discriminant branches =>
      have hentered := (sameLayout_expression discriminant h).enter .block range.start
      exact (sameLayout_cases branches hentered).leave range.stop
    | «try» block handler finalizer =>
      exact sameLayout_optionalStatement finalizer (sameLayout_catchClause handler (sameLayout_statement block h))
    | _ => exact h

theorem sameLayout_statements : ∀ (l : List Node) {b b' : Binder}, b.SameLayout b' →
    (statements l b).SameLayout (statements l b')
  | [], _, _, h => h
  | n :: rest, _, _, h => sameLayout_statements rest (sameLayout_statement n h)

theorem sameLayout_optionalStatement : ∀ (o : Option Node) {b b' : Binder}, b.SameLayout b' →
    (optionalStatement o b).SameLayout (optionalStatement o b')
  | none, _, _, h => h
  | some n, _, _, h => sameLayout_statement n h

theorem sameLayout_loopStart : ∀ (o : Option Node) {b b' : Binder}, b.SameLayout b' →
    (loopStart o b).SameLayout (loopStart o b')
  | none, _, _, h => h
  | some ⟨range, kind⟩, _, _, h => by
    have hexpression := sameLayout_expression ⟨range, kind⟩ h
    cases kind with
    | variableDeclaration kind declarations => exact sameLayout_declarators kind declarations h
    | _ => exact hexpression

theorem sameLayout_loopTargets {scope scope' : ScopeId} (hscope : scope = scope') (iterated iterated' : Ty)
    (kind : VariableKind) : ∀ (l : List Node) {b b' : Binder}, b.SameLayout b' →
    (loopTargets scope iterated kind l b).SameLayout (loopTargets scope' iterated' kind l b')
  | [], _, _, h => h
  | ⟨_, declaration⟩ :: rest, _, _, h => by
    cases declaration with
    | variableDeclarator target init =>
      have hpattern := sameLayout_pattern hscope (some iterated) (some iterated') kind.symbolKind target h
      exact sameLayout_loopTargets hscope iterated iterated' kind rest hpattern
    | _ => exact sameLayout_loopTargets hscope iterated iterated' kind rest h

theorem sameLayout_cases : ∀ (l : List Node) {b b' : Binder}, b.SameLayout b' →
    (Binder.cases l b).SameLayout (Binder.cases l b')
  | [], _, _, h => h
  | ⟨_, branch⟩ :: rest, _, _, h => by
    cases branch with
    | switchCase test consequent =>
      have htest := sameLayout_optional test h
      exact sameLayout_cases rest (sameLayout_statements consequent (htest.hoist consequent))
    | _ => exact sameLayout_cases rest h

theorem sameLayout_catchClause : ∀ (o : Option Node) {b b' : Binder}, b.SameLayout b' →
    (catchClause o b).SameLayout (catchClause o b')
  | none, _, _, h => h
  | some ⟨range, kind⟩, _, _, h => by
    cases kind with
    | catchClause param body =>
      obtain ⟨bodyRange, bodyKind⟩ := body
      cases bodyKind with
      | block body =>
        have hentered := h.enter .catch range.start
        have hdeclared := hentered.declare hentered.current (param.getD "") .parameter .parameter
          (some (.named "Error")) (some (.named "Error"))
        exact (sameLayout_statements body (hdeclared.hoist body)).leave range.stop
      | _ => exact h
    | _ => exact h

theorem sameLayout_declarators (kind : VariableKind) : ∀ (l : List Node) {b b' : Binder}, b.SameLayout b' →
    (declarators kind l b).SameLayout (declarators kind l b')
  | [], _, _, h => h
  | ⟨_, declaration⟩ :: rest, b, b', h => by
    cases declaration with
    | variableDeclarator target init =>
      have hscope := h.declarationScope kind
      have hpattern := sameLayout_pattern hscope (init.map b.evaluate) (init.map b'.evaluate) kind.symbolKind target h
      have hplain := sameLayout_declarators kind rest (sameLayout_optional init hpattern)
      rw [declarators, declarators]
      cases target.identifier? with
      | none => exact hplain
      | some name =>
        cases init.bind (·.classExpression?) with
        | none => exact hplain
        | some parts =>
          have hdeclared := h.declare hscope name kind.symbolKind kind.symbolKind
            (b.classSymbol parts (parts.name.getD name)).type (b'.classSymbol parts (parts.name.getD name)).type
          have hvalue := sameLayout_classValue (memberNames_classSymbol b b' parts (parts.name.getD name)) init hdeclared
          exact sameLayout_declarators kind rest hvalue
    | _ => exact sameLayout_declarators kind rest h

theorem sameLayout_classValue {symbol symbol' : Symbol} (hsymbol : symbol.memberNames = symbol'.memberNames) :
    ∀ (o : Option Node) {b b' : Binder}, b.SameLayout b' →
    (classValue symbol o b).SameLayout (classValue symbol' o b')
  | none, _, _, h => h
  | some n, _, _, h => sameLayout_parenthesizedClass hsymbol n h

theorem sameLayout_parenthesizedClass {symbol symbol' : Symbol} (hsymbol : symbol.memberNames = symbol'.memberNames) :
    ∀ (n : Node) {b b' : Binder}, b.SameLayout b' →
    (parenthesizedClass symbol n b).SameLayout (parenthesizedClass symbol' n b')
  | ⟨_, kind⟩, _, _, h => by
    cases kind with
    | parenthesized inner => exact sameLayout_parenthesizedClass hsymbol inner h
    | classExpression parts => exact sameLayout_classBody parts hsymbol h
    | _ => exact h

/-- **A pattern** declares the same names whatever is known of the value that it takes apart. -/
theorem sameLayout_pattern {scope scope' : ScopeId} (hscope : scope = scope') (source source' : Option Ty)
    (kind : SymbolKind) : ∀ (n : Node) {b b' : Binder}, b.SameLayout b' →
    (pattern scope source kind n b).SameLayout (pattern scope' source' kind n b')
  | ⟨_, nodeKind⟩, _, _, h => by
    cases nodeKind with
    | identifier name => exact h.declare hscope name kind kind source source'
    | objectLiteral items => exact sameLayout_propertyPatterns hscope source source' kind items h
    | arrayLiteral items => exact sameLayout_elementPatterns hscope _ _ kind items h
    | assignment operator target value =>
      exact sameLayout_pattern hscope _ _ kind target (sameLayout_expression value h)
    | _ => exact h

theorem sameLayout_propertyPatterns {scope scope' : ScopeId} (hscope : scope = scope') (source source' : Option Ty)
    (kind : SymbolKind) : ∀ (l : List Node) {b b' : Binder}, b.SameLayout b' →
    (propertyPatterns scope source kind l b).SameLayout (propertyPatterns scope' source' kind l b')
  | [], _, _, h => h
  | ⟨_, item⟩ :: rest, _, _, h => by
    cases item with
    | property key value computed shorthand method =>
      exact sameLayout_propertyPatterns hscope source source' kind rest (sameLayout_pattern hscope _ _ kind value h)
    | spread argument =>
      exact sameLayout_propertyPatterns hscope source source' kind rest (sameLayout_pattern hscope _ _ kind argument h)
    | _ => exact sameLayout_propertyPatterns hscope source source' kind rest h

theorem sameLayout_elementPatterns {scope scope' : ScopeId} (hscope : scope = scope') (element element' : Option Ty)
    (kind : SymbolKind) : ∀ (l : List Node) {b b' : Binder}, b.SameLayout b' →
    (elementPatterns scope element kind l b).SameLayout (elementPatterns scope' element' kind l b')
  | [], _, _, h => h
  | ⟨range, item⟩ :: rest, _, _, h => by
    have hitem := sameLayout_elementPatterns hscope element element' kind rest
      (sameLayout_pattern hscope element element' kind ⟨range, item⟩ h)
    cases item with
    | spread argument =>
      exact sameLayout_elementPatterns hscope element element' kind rest (sameLayout_pattern hscope _ _ kind argument h)
    | _ => exact hitem

theorem sameLayout_parameters : ∀ (l : List Node) {b b' : Binder}, b.SameLayout b' →
    (parameters l b).SameLayout (parameters l b')
  | [], _, _, h => h
  | ⟨_, parameter⟩ :: rest, _, _, h => by
    cases parameter with
    | parameter name target fallback isRest =>
      have hfallback := sameLayout_optional fallback h
      cases target with
      | some target =>
        exact sameLayout_parameters rest (sameLayout_pattern h.current _ _ .parameter target hfallback)
      | none =>
        exact sameLayout_parameters rest (hfallback.declare h.current name ..)
    | _ => exact sameLayout_parameters rest h

theorem sameLayout_function : ∀ (parts : FunctionParts Node) (start : Nat) (symbol symbol' : Option Symbol)
    (isStatic : Bool) {b b' : Binder}, b.SameLayout b' →
    (function parts start symbol isStatic b).SameLayout (function parts start symbol' isStatic b')
  | ⟨_, params, ⟨range, kind⟩, _⟩, start, symbol, symbol', isStatic, _, _, h => by
    have hparams := sameLayout_parameters params
      ((h.enter .function start).setFunction symbol symbol' isStatic isStatic)
    have hstatement := sameLayout_statement ⟨range, kind⟩ hparams
    cases kind with
    | block body => exact (sameLayout_statements body (hparams.hoist body)).leave range.stop
    | _ => exact hstatement.leave range.stop

/-- **A class body** declares the members of its class and nothing else of what is known. -/
theorem sameLayout_classBody : ∀ (parts : ClassParts Node) {symbol symbol' : Symbol},
    symbol.memberNames = symbol'.memberNames → ∀ {b b' : Binder}, b.SameLayout b' →
    (classBody parts symbol b).SameLayout (classBody parts symbol' b')
  | ⟨_, superclass, members, bodyRange⟩, symbol, symbol', hsymbol, _, _, h => by
    have hentered := (sameLayout_optional superclass h).enter .classBody bodyRange.start
    have hopened := (hentered.declareMembers hsymbol).setClass symbol symbol'
    exact (sameLayout_classElements members hopened).leave bodyRange.stop

theorem sameLayout_classElements : ∀ (l : List Node) {b b' : Binder}, b.SameLayout b' →
    (classElements l b).SameLayout (classElements l b')
  | [], _, _, h => h
  | ⟨_, element⟩ :: rest, _, _, h => by
    cases element with
    | methodMember key kind isStatic value =>
      obtain ⟨range, kind⟩ := value
      cases kind with
      | functionExpression parts =>
        exact sameLayout_classElements rest (sameLayout_function parts range.start _ _ isStatic h)
      | _ => exact sameLayout_classElements rest h
    | fieldMember key value isStatic => exact sameLayout_classElements rest (sameLayout_optional value h)
    | _ => exact sameLayout_classElements rest h

/-- **An expression** opens the same scopes and declares the same names whatever is known. -/
theorem sameLayout_expression : ∀ (n : Node) {b b' : Binder}, b.SameLayout b' →
    (expression n b).SameLayout (expression n b')
  | ⟨range, kind⟩, b, b', h => by
    cases kind with
    | arrowFunction params body isAsync =>
      have hparams := sameLayout_parameters params (h.enter .arrow range.start)
      have hexpression := sameLayout_expression body hparams
      obtain ⟨bodyRange, bodyKind⟩ := body
      cases bodyKind with
      | block body => exact (sameLayout_statements body (hparams.hoist body)).leave range.stop
      | _ => exact hexpression.leave range.stop
    | functionExpression parts =>
      obtain ⟨name, params, body, isAsync⟩ := parts
      cases name with
      | none => exact sameLayout_function ⟨none, params, body, isAsync⟩ range.start none none false h
      | some name =>
        have hbound := sameLayout_function ⟨some name, params, body, isAsync⟩ range.start
          (some ⟨name, .function, none⟩) (some ⟨name, .function, none⟩) false h
        exact hbound.define (ScopeTree.size_of_layout h.layout) rfl
    | classExpression parts =>
      exact sameLayout_classBody parts (memberNames_classSymbol b b' parts (parts.name.getD "")) h
    | member object property computed chained =>
      have hobject := sameLayout_expression object h
      cases computed with
      | true => exact sameLayout_expression property hobject
      | false => exact hobject
    | call callee arguments chained => exact sameLayout_expressions arguments (sameLayout_expression callee h)
    | new callee arguments => exact sameLayout_expressions arguments (sameLayout_expression callee h)
    | binary operator left right => exact sameLayout_expression right (sameLayout_expression left h)
    | logical operator left right => exact sameLayout_expression right (sameLayout_expression left h)
    | assignment operator left right => exact sameLayout_expression right (sameLayout_expression left h)
    | unary operator argument => exact sameLayout_expression argument h
    | update operator isPrefix argument => exact sameLayout_expression argument h
    | spread argument => exact sameLayout_expression argument h
    | parenthesized inner => exact sameLayout_expression inner h
    | conditional test consequent alternate =>
      exact sameLayout_expression alternate (sameLayout_expression consequent (sameLayout_expression test h))
    | sequence items => exact sameLayout_expressions items h
    | arrayLiteral items => exact sameLayout_expressions items h
    | objectLiteral items => exact sameLayout_properties items h
    | _ => exact h

theorem sameLayout_optional : ∀ (o : Option Node) {b b' : Binder}, b.SameLayout b' →
    (Binder.optional o b).SameLayout (Binder.optional o b')
  | none, _, _, h => h
  | some n, _, _, h => sameLayout_expression n h

theorem sameLayout_expressions : ∀ (l : List Node) {b b' : Binder}, b.SameLayout b' →
    (expressions l b).SameLayout (expressions l b')
  | [], _, _, h => h
  | n :: rest, _, _, h => sameLayout_expressions rest (sameLayout_expression n h)

theorem sameLayout_properties : ∀ (l : List Node) {b b' : Binder}, b.SameLayout b' →
    (properties l b).SameLayout (properties l b')
  | [], _, _, h => h
  | ⟨range, item⟩ :: rest, _, _, h => by
    have hitem := sameLayout_properties rest (sameLayout_expression ⟨range, item⟩ h)
    cases item with
    | property key value computed shorthand method =>
      cases computed with
      | false => exact sameLayout_properties rest (sameLayout_expression value h)
      | true => exact sameLayout_properties rest (sameLayout_expression value (sameLayout_expression key h))
    | _ => exact hitem
end

/-! ### A whole text -/

theorem layout_bind (program : Node) (tracks tracks' : Bool) :
    (program.bind tracks).layout = (program.bind tracks').layout := by
  have hstart : (Binder.start tracks).SameLayout (Binder.start tracks') := ⟨rfl, rfl⟩
  have hstatement := sameLayout_statement program hstart
  obtain ⟨range, kind⟩ := program
  cases kind with
  | program body => exact (sameLayout_statements body (hstart.hoist body)).layout
  | _ => exact hstatement.layout

/-- **Tracking assignments changes types only**: whether a text is bound with the types that assignments tell
or without, it has the same scopes, each at the same place and with the same names in the same order. -/
theorem layout_bindText (recovers : Bool) (text : List Char) :
    (bindText ⟨recovers, true⟩ text).tree.layout = (bindText ⟨recovers, false⟩ text).tree.layout := by
  cases recovers with
  | true => exact ScopeTree.layout_close (layout_bind _ true false) ..
  | false =>
    have hclose : ∀ program : Node, ((program.bind true).close ScopeTree.root (Text.unitLength text + 1)).layout =
        ((program.bind false).close ScopeTree.root (Text.unitLength text + 1)).layout := fun program =>
      ScopeTree.layout_close (layout_bind program true false) ..
    rw [bindText, bindText]
    cases parseProgram text with
    | ok program => exact hclose program
    | error fault => rfl

end Typeahead
