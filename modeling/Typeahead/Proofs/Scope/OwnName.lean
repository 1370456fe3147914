/-
# The own name of a function expression

A function expression is given its own name once its parameters and its body are bound, in its scope, as
if it were declared there last. Nothing else changes what that scope holds from then on. So every other
name keeps the symbol that it had when the body was bound, and so does the own name only if nothing in the
function was called like it.

Key definitions: `Binder.Piece.Valid`, `Binder.Piece.NamesOpened`.
Key theorems: `Binder.Piece.namesOpened`, `Binder.Visits.settled`, `symbol?_functionExpression`.
-/
import Typeahead.Proofs.Parse.Same
import Typeahead.Proofs.Scope.Settled
import Typeahead.Proofs.Scope.Visits

namespace Typeahead

namespace Binder

open ScopeTree

variable {b c : Binder} {first : Nat} {id : ScopeId} {symbols : Entries Symbol}

/-! ### What pieces leave behind -/

theorem Anchored.of_run (p : Piece) (h : b.Anchored first) : (p.run b).Anchored first :=
  p.keeps stable_anchored (fun h stop => h.leave stop) (fun _ _ => trivial) h

theorem Settled.of_run (p : Piece) (hne : ∀ scope ∈ p.scope?, scope ≠ id) (h : b.Settled id symbols) :
    (p.run b).Settled id symbols :=
  p.keeps stable_settled (fun h stop => h.leave stop) hne h

theorem Settled.of_runAll : ∀ (l : List Piece) {b : Binder}, (∀ p ∈ l, ∀ scope ∈ p.scope?, scope ≠ id) →
    b.Settled id symbols → (runAll l b).Settled id symbols
  | [], _, _, h => h
  | p :: rest, _, hne, h => of_runAll rest (List.forall_mem_cons.1 hne).2 (h.of_run p (List.forall_mem_cons.1 hne).1)

theorem Anchored.of_runAll : ∀ (l : List Piece) {b : Binder}, b.Anchored first → (runAll l b).Anchored first
  | [], _, h => h
  | p :: rest, _, h => of_runAll rest (h.of_run p)

theorem Anchored.of_inOrder : ∀ (l : List Piece) {b : Binder} {q : Piece}, (q, c) ∈ inOrder l b → b.Anchored first →
    q ∈ l ∧ c.Anchored first
  | [], _, _, hq, _ => absurd hq List.not_mem_nil
  | p :: rest, b, q, hq, h => by
    rcases List.mem_cons.1 hq with heq | hq
    · cases heq
      exact ⟨List.mem_cons_self, h⟩
    · obtain ⟨hmem, hc⟩ := of_inOrder rest hq (h.of_run p)
      exact ⟨List.mem_cons_of_mem _ hmem, hc⟩

theorem Settled.of_inOrder : ∀ (l : List Piece) {b : Binder} {q : Piece}, (q, c) ∈ inOrder l b →
    (∀ p ∈ l, ∀ scope ∈ p.scope?, scope ≠ id) → (q.run c).Settled id symbols → (runAll l b).Settled id symbols
  | [], _, _, hq, _, _ => absurd hq List.not_mem_nil
  | p :: rest, b, q, hq, hne, h => by
    obtain ⟨-, hrest⟩ := List.forall_mem_cons.1 hne
    rcases List.mem_cons.1 hq with heq | hq
    · cases heq
      exact h.of_runAll rest hrest
    · exact of_inOrder rest hq hrest h

/-- A piece names a scope that is there. -/
def Piece.Valid (p : Piece) (b : Binder) : Prop := ∀ scope ∈ p.scope?, scope < b.tree.size

theorem Anchored.opened (h : b.Anchored first) (p : Piece) : (p.opened b).Anchored first := by
  rw [Piece.opened.eq_def]
  split
  · split
    · exact (h.enter _ _).mono (Nat.le_succ _)
    · exact (h.enter _ _).mono (Nat.le_succ _)
    · exact (h.enter _ _).mono (Nat.le_succ _)
    · exact h
  · exact (h.enter _ _).mono (Nat.le_succ _)
  · exact ((h.enter _ _).mono (Nat.le_succ _)).sameOutline (.setFunction ..)
  · split
    · exact (h.enter _ _).mono (Nat.le_succ _)
    · exact ((h.enter _ _).mono (Nat.le_succ _)).sameOutline (.setFunction ..)
    · exact h
  · exact h

theorem Anchored.own (h : b.Anchored first) : b.Anchored b.tree.size := ⟨h.hangs, h.valid, Nat.le_refl _⟩

namespace Piece

/-- The scopes that the smaller pieces of a piece name, which are there when the first of them begins. -/
def NamesOpened (p : Piece) (b : Binder) : Prop :=
  ∀ scope ∈ (p.pieces b).filterMap scope?, scope < (p.opened b).tree.size

theorem NamesOpened.none {p : Piece} (h : (p.pieces b).filterMap scope? = []) : p.NamesOpened b := by
  rw [NamesOpened, h]
  exact List.forall_mem_nil _

/-- A statement names the open scope, or the head of a loop one that is found from its own. -/
theorem namesOpened_statement (h : b.Anchored first) (n : Node) : (Piece.statement n).NamesOpened b := by
  obtain ⟨range, kind⟩ := n
  cases kind with
  | functionDeclaration parts =>
    obtain ⟨name, params, body, isAsync⟩ := parts
    cases name with
    | none => exact .none rfl
    | some name => exact List.forall_mem_singleton.2 h.valid
  | classDeclaration parts => exact List.forall_mem_singleton.2 h.valid
  | forInOf left right body isOf =>
    obtain ⟨leftRange, leftKind⟩ := left
    cases leftKind with
    | variableDeclaration kind declarations =>
      have hopened := h.enter .block range.start
      have hcurrent := (keeps_expression right _ hopened.valid).current
      have hle := (hopened.of_run (.expression right)).declarationScope_le kind
      exact List.forall_mem_singleton.2 (Nat.lt_of_le_of_lt (hle.trans (Nat.le_of_eq hcurrent)) hopened.valid)
    | _ => exact .none rfl
  | _ => exact .none rfl

/-- A function expression names its own scope, which is opened first. -/
theorem namesOpened_expression (h : b.Anchored first) (n : Node) : (Piece.expression n).NamesOpened b := by
  obtain ⟨range, kind⟩ := n
  cases kind with
  | arrowFunction params body isAsync =>
    obtain ⟨bodyRange, bodyKind⟩ := body
    cases bodyKind <;> exact .none rfl
  | functionExpression parts =>
    have hopened := (h.own.enter .function range.start).sameOutline (.setFunction _ (ownSymbol? parts) false)
    obtain ⟨name, params, body, isAsync⟩ := parts
    obtain ⟨bodyRange, bodyKind⟩ := body
    cases name with
    | none => cases bodyKind <;> exact .none rfl
    | some name => cases bodyKind <;> exact List.forall_mem_singleton.2 hopened.grown
  | member object property computed chained => cases computed <;> exact .none rfl
  | _ => exact .none rfl

/-- What a pattern declares it declares in the scope that it is told. -/
theorem namesOpened_pattern {scope : ScopeId} (hscope : scope < b.tree.size) (source : Option Ty) (kind : SymbolKind)
    (n : Node) : (Piece.pattern scope source kind n).NamesOpened b := by
  obtain ⟨range, kind⟩ := n
  cases kind with
  | identifier | objectLiteral | arrayLiteral | assignment => exact List.forall_mem_singleton.2 hscope
  | _ => exact .none rfl

/-- So do the patterns and the variables of a list. -/
theorem namesOpened_patterns {scope : ScopeId} (hscope : scope < b.tree.size) (l : List Node) :
    (∀ iterated kind, (Piece.loopTargets scope iterated kind l).NamesOpened b) ∧
    (∀ source kind, (Piece.propertyPatterns scope source kind l).NamesOpened b) ∧
    ∀ element kind, (Piece.elementPatterns scope element kind l).NamesOpened b := by
  have htwo : ∀ other ∈ [scope, scope], other < b.tree.size :=
    List.forall_mem_cons.2 ⟨hscope, List.forall_mem_singleton.2 hscope⟩
  cases l with
  | nil => exact ⟨fun _ _ => .none rfl, fun _ _ => .none rfl, fun _ _ => .none rfl⟩
  | cons n rest =>
    obtain ⟨range, item⟩ := n
    refine ⟨fun _ _ => ?_, fun _ _ => ?_, fun _ _ => ?_⟩
    · cases item with
      | variableDeclarator target init => exact htwo
      | _ => exact List.forall_mem_singleton.2 hscope
    · cases item with
      | property | spread => exact htwo
      | _ => exact List.forall_mem_singleton.2 hscope
    · cases item <;> exact htwo

/-- Variables are declared in a scope around the open one, or in it, and parameters in it. -/
theorem namesOpened_declarators (h : b.Anchored first) (kind : VariableKind) (l : List Node) :
    (Piece.declarators kind l).NamesOpened b := by
  cases l with
  | nil => exact .none rfl
  | cons n rest =>
    obtain ⟨range, declaration⟩ := n
    cases declaration with
    | variableDeclarator target init =>
      have hscope := Nat.lt_of_le_of_lt (h.declarationScope_le kind) h.valid
      change ∀ scope ∈ (declarator kind target init b ++ [declarators kind rest]).filterMap scope?, scope < b.tree.size
      rw [declarator]
      cases target.identifier? <;> cases init.bind (·.classExpression?) <;> exact List.forall_mem_singleton.2 hscope
    | _ => exact .none rfl

theorem namesOpened_parameters (h : b.Anchored first) (l : List Node) : (Piece.parameters l).NamesOpened b := by
  cases l with
  | nil => exact .none rfl
  | cons n rest =>
    obtain ⟨range, parameter⟩ := n
    cases parameter with
    | parameter name target fallback isRest => cases target <;> exact List.forall_mem_singleton.2 h.valid
    | _ => exact .none rfl

/-- The parameter of a `catch` clause is declared in the scope of the clause. -/
theorem namesOpened_catchClause (h : b.Anchored first) (o : Option Node) : (Piece.catchClause o).NamesOpened b := by
  cases o with
  | none => exact .none rfl
  | some n =>
    obtain ⟨range, kind⟩ := n
    cases kind with
    | catchClause param body =>
      obtain ⟨bodyRange, bodyKind⟩ := body
      cases bodyKind with
      | block body => exact List.forall_mem_singleton.2 (h.enter .catch range.start).valid
      | _ => exact .none rfl
    | _ => exact .none rfl

/-- **The smaller pieces of a piece name scopes that are there when the first of them begins**, if it names
one that is there itself. -/
theorem namesOpened (h : b.Anchored first) (p : Piece) (hp : p.Valid b) : p.NamesOpened b := by
  cases p with
  | statement n => exact namesOpened_statement h n
  | expression n => exact namesOpened_expression h n
  | catchClause o => exact namesOpened_catchClause h o
  | declarators kind l => exact namesOpened_declarators h kind l
  | parameters l => exact namesOpened_parameters h l
  | pattern scope source kind n => exact namesOpened_pattern (hp scope rfl) source kind n
  | loopTargets scope iterated kind l => exact (namesOpened_patterns (hp scope rfl) l).1 iterated kind
  | propertyPatterns scope source kind l => exact (namesOpened_patterns (hp scope rfl) l).2.1 source kind
  | elementPatterns scope element kind l => exact (namesOpened_patterns (hp scope rfl) l).2.2 element kind
  -- the others name none
  | function parts start symbol isStatic =>
    obtain ⟨name, params, ⟨range, kind⟩, isAsync⟩ := parts
    cases kind <;> exact .none rfl
  | statements l | expressions l => cases l <;> exact .none rfl
  | cases l =>
    rcases l with _ | ⟨⟨range, kind⟩, rest⟩
    · exact .none rfl
    · cases kind <;> exact .none rfl
  | properties l =>
    rcases l with _ | ⟨⟨range, item⟩, rest⟩
    · exact .none rfl
    · cases item with
      | property key value computed shorthand method => cases computed <;> exact .none rfl
      | _ => exact .none rfl
  | classElements l =>
    rcases l with _ | ⟨⟨range, element⟩, rest⟩
    · exact .none rfl
    · cases element with
      | methodMember key kind isStatic value =>
        obtain ⟨valueRange, valueKind⟩ := value
        cases valueKind <;> exact .none rfl
      | _ => exact .none rfl
  | optionalStatement o | classValue symbol o | optional o => cases o <;> exact .none rfl
  | loopStart o =>
    rcases o with _ | ⟨range, kind⟩
    · exact .none rfl
    · cases kind <;> exact .none rfl
  | parenthesizedClass symbol n =>
    obtain ⟨range, kind⟩ := n
    cases kind <;> exact .none rfl
  | _ => exact .none rfl

theorem Valid.pieces {p : Piece} (h : b.Anchored first) (hp : p.Valid b) : ∀ q ∈ p.pieces b, q.Valid (p.opened b) :=
  fun q hq scope hscope => namesOpened h p hp scope (List.mem_filterMap.2 ⟨q, hq, hscope⟩)

end Piece

/-! ### What is visited -/

/-- What a smaller piece of a piece has settled in the scopes that are opened from then on stays settled. -/
theorem settled_of_mem_visits {p q : Piece} (h : b.Anchored first) (hp : p.Valid b) (hq : (q, c) ∈ p.visits b) :
    c.Anchored b.tree.size ∧ q.Valid c ∧ ∀ {id symbols}, c.tree.size ≤ id → (q.run c).Settled id symbols →
      (p.run b).Settled id symbols := by
  have hvalid := hp.pieces h
  have hopened := h.own.opened p
  obtain ⟨hmem, hc⟩ := Anchored.of_inOrder (p.pieces b) hq hopened.own
  refine ⟨hc.mono hopened.grown, fun scope hscope => Nat.lt_of_lt_of_le (hvalid q hmem scope hscope) hc.grown,
    fun {id symbols} hid hs => ?_⟩
  rw [p.run_eq b (List.ne_nil_of_mem hmem)]
  refine hs.of_inOrder (p.pieces b) hq fun r hr scope hscope => ?_
  exact Nat.ne_of_lt (Nat.lt_of_lt_of_le (hvalid r hr scope hscope) (Nat.le_trans hc.grown hid))

/-- **What a piece that is visited has settled in the scopes that are opened from then on stays settled.** -/
theorem Visits.settled {outer inner : Piece × Binder} (hvisits : Visits outer inner) (h : outer.2.Anchored first)
    (hp : outer.1.Valid outer.2) :
    inner.2.Anchored outer.2.tree.size ∧ inner.1.Valid inner.2 ∧ ∀ {id symbols}, inner.2.tree.size ≤ id →
      (inner.1.run inner.2).Settled id symbols → (outer.1.run outer.2).Settled id symbols := by
  induction hvisits with
  | refl => exact ⟨h.own, hp, fun _ hs => hs⟩
  | tail _ hinner ih =>
    obtain ⟨hmiddle, hvalid, hsettled⟩ := ih
    obtain ⟨hanchored, hvalid', hsettled'⟩ := settled_of_mem_visits hmiddle hvalid hinner
    exact ⟨hanchored.mono hmiddle.grown, hvalid', fun hid hs =>
      hsettled (Nat.le_trans hanchored.grown hid) (hsettled' hid hs)⟩

theorem anchored_start (tracksAssignments : Bool) : (Binder.start tracksAssignments).Anchored 0 :=
  ⟨(Nests.start 0 tracksAssignments).hangs, Nat.zero_lt_one, Nat.zero_le _⟩

end Binder

open Binder ScopeTree

/-- What a piece that is visited has settled is so in the scopes of the script. -/
theorem Node.Visits.settled {program : Node} {tracksAssignments : Bool} {inner : Piece × Binder}
    (h : program.Visits tracksAssignments inner) : inner.2.Anchored 0 ∧ ∀ {id symbols}, inner.2.tree.size ≤ id →
      (inner.1.run inner.2).Settled id symbols →
        ∃ s, (program.bind tracksAssignments).get? id = some s ∧ s.symbols = symbols := by
  obtain ⟨range, kind⟩ := program
  have hstart := anchored_start tracksAssignments
  cases kind with
  | program body =>
    obtain ⟨hinner, -, hsettled⟩ := Binder.Visits.settled h (hstart.sameOutline (.hoist _ body)) (fun _ hs => by cases hs)
    exact ⟨hinner.mono (Nat.zero_le _), fun hid hs => (hsettled hid hs).holds⟩
  | _ =>
    obtain ⟨hinner, -, hsettled⟩ := Binder.Visits.settled h hstart (fun _ hs => by cases hs)
    exact ⟨hinner.mono (Nat.zero_le _), fun hid hs => (hsettled hid hs).holds⟩

/-- The scope of a function is added to the tree, and lies around none that was there. -/
theorem Binder.Anchored.function {b : Binder} {first : Nat} (h : b.Anchored first) (parts : FunctionParts Node)
    (start : Nat) (symbol : Option Symbol) (isStatic : Bool) :
    (Binder.function parts start symbol isStatic b).Anchored (b.tree.size + 1) ∧
      (Binder.function parts start symbol isStatic b).current = b.current := by
  refine ⟨?_, (keeps_function parts start symbol isStatic b h.valid).current⟩
  have hopened : ((Piece.function parts start symbol isStatic).opened b).Anchored (b.tree.size + 1) :=
    (h.own.enter .function start).sameOutline (.setFunction _ symbol isStatic)
  have hrun := (Piece.function parts start symbol isStatic).run_eq b (List.cons_ne_nil _ _)
  have hleft := hopened.of_runAll ((Piece.function parts start symbol isStatic).pieces b)
  rw [← hrun] at hleft
  exact hleft

/-- When a named function expression is bound its scope is done with, and holds its own name. -/
theorem Binder.Anchored.functionExpression {b : Binder} {first : Nat} (h : b.Anchored first) (range : TextRange)
    {parts : FunctionParts Node} {name : String} (hname : parts.name = some name) :
    let own : Symbol := ⟨name, .function, none⟩
    ∃ s, (Binder.function parts range.start (some own) false b).tree.get? b.tree.size = some s ∧
      (expression ⟨range, .functionExpression parts⟩ b).Settled b.tree.size (s.symbols.insert name own) := by
  intro own
  let bound := Binder.function parts range.start (some own) false b
  obtain ⟨hbound, hcurrent⟩ := h.function parts range.start (some own) false
  obtain ⟨s, hs⟩ : ∃ s, bound.tree.get? b.tree.size = some s := ⟨_, Array.getElem?_eq_getElem hbound.grown⟩
  -- the scope has been left, and what is declared in it last is the own name
  have hrun : expression ⟨range, .functionExpression parts⟩ b =
      { bound with tree := bound.tree.define b.tree.size own } := by
    rw [expression, hname]
  rw [hrun]
  refine ⟨s, hs, Nat.ne_of_gt (Nat.zero_lt_of_lt h.valid), fun ha => ?_, { s with symbols := s.symbols.insert name own },
    ?_, rfl⟩
  · have ha : bound.tree.Around b.current b.tree.size := by
      rw [← hcurrent]
      exact ha.mono fun other o ho => ⟨o, ((SameOutline.define bound b.tree.size own).outline other).symm.trans ho, rfl⟩
    exact Nat.not_le.2 h.valid (hbound.hangs.le_of_around ha)
  · dsimp only
    rw [define, get?_modify, if_pos rfl, hs, Option.map_some]

/-- **What the scope of a named function expression holds when its body is bound it holds once the script is
bound**, in every text that parses and wherever the binder visits the expression, but for the own name, whose
symbol is that of the function. So all is as it was exactly if nothing in the scope was called like the
function. -/
theorem symbol?_functionExpression (options : BindOptions) {text : List Char} {program : Node}
    (h : parseProgram text = .ok program) {range : TextRange} {parts : FunctionParts Node} {name : String} {b : Binder}
    (hname : parts.name = some name)
    (hvisits : program.Visits options.tracksAssignments (.expression ⟨range, .functionExpression parts⟩, b)) :
    let own : Symbol := ⟨name, .function, none⟩
    let scope := b.tree.size
    let before := (Binder.function parts range.start (some own) false b).tree
    let after := (bindText options text).tree
    (∀ other, after.symbol? scope other = if other = name then some own else before.symbol? scope other) ∧
      ((∀ other symbol, before.symbol? scope other = some symbol → after.symbol? scope other = some symbol) ↔
        ∀ symbol, before.symbol? scope name = some symbol → symbol = own) := by
  intro own scope before after
  obtain ⟨hb, hsettled⟩ := hvisits.settled
  obtain ⟨s, hs, hlast⟩ := hb.functionExpression range hname
  obtain ⟨s', hs', hsymbols⟩ := hsettled (Nat.le_refl _) hlast
  have hsymbol : ∀ other, after.symbol? scope other = if other = name then some own else before.symbol? scope other := by
    intro other
    have hafter : after.symbol? scope other = s'.symbols.get? other := by
      rw [show after = _ from tree_bindText options h, symbol?_close, symbol?, hs', Option.bind_some]
    have hbefore : before.symbol? scope other = s.symbols.get? other := by rw [symbol?, hs, Option.bind_some]
    rw [hafter, hbefore, hsymbols, Entries.get?_insert]
    exact if_congr eq_comm rfl rfl
  refine ⟨hsymbol, fun hkept symbol hheld => ?_, fun hown other symbol hheld => ?_⟩
  · have hheld := hkept name symbol hheld
    rw [hsymbol, if_pos rfl] at hheld
    exact (Option.some.inj hheld).symm
  · rw [hsymbol]
    split
    · rename_i heq
      subst heq
      rw [hown symbol hheld]
    · exact hheld

/-- A script that is one expression in parentheses visits the expression before anything is bound. -/
theorem visits_parenthesized (range range' range'' : TextRange) (n : Node) (tracksAssignments : Bool) :
    Node.Visits ⟨range, .program [⟨range', .expressionStatement ⟨range'', .parenthesized n⟩⟩]⟩ tracksAssignments
      (.expression n, .start tracksAssignments) := by
  let b := Binder.start tracksAssignments
  let outer : Node := ⟨range'', .parenthesized n⟩
  have hstatement : (Piece.statement ⟨range', .expressionStatement outer⟩, b) ∈
      (Piece.statements [⟨range', .expressionStatement outer⟩]).visits b := List.mem_cons_self
  have houter : (Piece.expression outer, b) ∈ (Piece.statement ⟨range', .expressionStatement outer⟩).visits b :=
    List.mem_cons_self
  have hinner : (Piece.expression n, b) ∈ (Piece.expression outer).visits b := List.mem_cons_self
  exact .tail (.tail (.tail .refl hstatement) houter) hinner

/-- A parameter and a variable keep their symbols, as neither is called like the function. -/
theorem symbol?_functionExpression_param :
    let text := "(function n(a) {let b})".toList
    let declared : Node := ⟨⟨16, 21⟩, .variableDeclaration .letKind [⟨⟨20, 21⟩, .variableDeclarator
      ⟨⟨20, 21⟩, .identifier "b"⟩ none⟩]⟩
    let parts : FunctionParts Node :=
      ⟨some "n", [⟨⟨12, 13⟩, .parameter "a" none none false⟩], ⟨⟨15, 22⟩, .block [declared]⟩, false⟩
    let fn : Node := ⟨⟨1, 22⟩, .functionExpression parts⟩
    let program : Node := ⟨⟨0, 23⟩, .program [⟨⟨0, 23⟩, .expressionStatement ⟨⟨0, 23⟩, .parenthesized fn⟩⟩]⟩
    let before := (Binder.function parts 1 (some ⟨"n", .function, none⟩) false (.start true)).tree
    (parseProgram text = .ok program ∧ parts.name = some "n" ∧ program.Visits true (.expression fn, .start true)) ∧
      (before.symbol? 1 "a").isSome = true ∧ (before.symbol? 1 "b").isSome = true ∧
      ∀ other symbol, before.symbol? 1 other = some symbol → (bindText {} text).tree.symbol? 1 other = some symbol := by
  intro text declared parts fn program before
  have hparse : parseProgram text = .ok program := parseProgram_of_same (by decide +kernel)
  have hvisits : program.Visits true (.expression fn, .start true) := visits_parenthesized ..
  have hnone : before.symbol? 1 "n" = none := Option.isNone_iff_eq_none.1 (by decide +kernel)
  refine ⟨⟨hparse, rfl, hvisits⟩, by decide +kernel, by decide +kernel, ?_⟩
  refine (symbol?_functionExpression {} hparse rfl hvisits).2.2 fun symbol hheld => ?_
  cases hnone.symm.trans hheld

/-- **A parameter that is called like the function is hidden**: when the body is bound the name is that of a
parameter, which is a string, and once the script is bound it is that of the function. -/
theorem parameter_hidden_by_own_name :
    let text := "(function n(n = '') {})".toList
    let param : Node := ⟨⟨12, 18⟩, .parameter "n" none (some ⟨⟨16, 18⟩, .stringLiteral ""⟩) false⟩
    let parts : FunctionParts Node := ⟨some "n", [param], ⟨⟨20, 22⟩, .block []⟩, false⟩
    let fn : Node := ⟨⟨1, 22⟩, .functionExpression parts⟩
    let program : Node := ⟨⟨0, 23⟩, .program [⟨⟨0, 23⟩, .expressionStatement ⟨⟨0, 23⟩, .parenthesized fn⟩⟩]⟩
    let told (tree : ScopeTree) : Option (SymbolKind × Bool) :=
      (tree.symbol? 1 "n").map fun symbol => (symbol.kind, symbol.typeOrUnknown.isPrimitive .string)
    parseProgram text = .ok program ∧ parts.name = some "n" ∧ program.Visits true (.expression fn, .start true) ∧
      told (Binder.function parts 1 (some ⟨"n", .function, none⟩) false (.start true)).tree = some (.parameter, true) ∧
      told (bindText {} text).tree = some (.function, false) :=
  ⟨parseProgram_of_same (by decide +kernel), rfl, visits_parenthesized .., by decide +kernel, by decide +kernel⟩

end Typeahead
