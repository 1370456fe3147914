/-
# Two runs in step

A tree is bound twice, at two places of a text, in states of which one has scopes that the other
does not have. What is known of the names in the tree is the same, and so each step of the binder
in one run has its counterpart in the other: the same names are declared with the same types in
scopes that are counterparts of each other.

Key definitions: `Pace`, `Scope.Counterpart`, `Binder.Paired`.
Key theorems: `Binder.Paired.of_counterparts`, `Binder.Paired.declare`, `Binder.Paired.hoist`,
`Binder.Paired.scope`, `Binder.Paired.refineResult`, `Binder.Paired.trackAssignment`.
-/
import Mathlib.Order.MinMax
import Typeahead.Proofs.Hoisting.Insertion
import Typeahead.Proofs.Scope.Keep

namespace Typeahead

/-- How two runs differ: in the scopes that one of them has more, in one name of the global scope,
and in the places of the tree that is bound, whose scopes are those from the first one on. -/
structure Pace where
  insertion : Insertion
  discord : Option Discord
  near : Nat → Nat
  far : Nat → Nat
  near_mono : StrictMono near
  far_mono : StrictMono far
  first : Nat
  behind_root : ScopeTree.root < first

namespace Pace

/-- The counterpart of a scope. -/
abbrev shift (p : Pace) : Nat → Nat := p.insertion.shift

/-- The name that has two symbols. -/
abbrev hidden (p : Pace) : Option String := p.discord.map (·.name)

theorem ne_root (p : Pace) {id : Nat} (h : p.first ≤ id) : id ≠ ScopeTree.root :=
  Nat.ne_of_gt (Nat.lt_of_lt_of_le p.behind_root h)

end Pace

/-- Two scopes cover the same part of the tree, each at its own place, and list the same scopes. -/
structure Scope.Aligned (p : Pace) (s s' : Scope) : Prop where
  start : ∃ a, s.start = p.near a ∧ s'.start = p.far a
  stop : ∃ a, s.stop = p.near a ∧ s'.stop = p.far a
  children : s'.children = s.children.map p.shift

/-- What a scope and its counterpart have in common: they are twins, and cover the same if the scope is
one of those of the tree that is bound. The global ones start with the text. -/
structure Scope.Counterpart (p : Pace) (id : ScopeId) (s s' : Scope) : Prop where
  twin : s.Twin p.insertion s'
  aligned : p.first ≤ id → s.Aligned p s' ∧ ∀ c ∈ s.children, p.first ≤ c
  starts : id = ScopeTree.root → s.start = 0 ∧ s'.start = 0

/-! ### Where scopes lie -/

namespace ScopeTree

variable {p : Pace} {tree tree' : ScopeTree}

/-- The scopes from the first one on cover what their counterparts do. -/
def Matches (p : Pace) (tree tree' : ScopeTree) : Prop :=
  ∀ id s s', p.first ≤ id → tree.frame? id = some s → tree'.frame? (p.shift id) = some s' →
    s.Aligned p s' ∧ ∀ c ∈ s.children, p.first ≤ c

theorem max_lastStop (tree : ScopeTree) (last : Nat) (ids : List ScopeId) :
    max last (tree.lastStop ids) =
      ids.foldl (fun last id => max last (((tree.get? id).map (·.stop)).getD 0)) last := by
  have hfold : ∀ (l : List ScopeId) (x y : Nat),
      max x (l.foldl (fun last id => max last (((tree.get? id).map (·.stop)).getD 0)) y) =
        l.foldl (fun last id => max last (((tree.get? id).map (·.stop)).getD 0)) (max x y) := by
    intro l
    induction l with
    | nil => exact fun _ _ => rfl
    | cons a l ih =>
      intro x y
      rw [List.foldl_cons, List.foldl_cons, ih, Nat.max_assoc]
  rw [lastStop, hfold, Nat.max_zero]

/-- The last of an offset and the ends of some scopes is at the same place in both trees. -/
theorem Matches.lastStop (h : Spliced p.insertion p.discord tree tree') (hm : Matches p tree tree') (start : Nat)
    {ids : List ScopeId} (hids : ∀ c ∈ ids, p.first ≤ c) :
    ∃ a, max (p.near start) (tree.lastStop ids) = p.near a ∧
      max (p.far start) (tree'.lastStop (ids.map p.shift)) = p.far a := by
  rw [max_lastStop, max_lastStop, List.foldl_map]
  induction ids generalizing start with
  | nil => exact ⟨start, rfl, rfl⟩
  | cons c rest ih =>
    have hrest := fun d hd => hids d (List.mem_cons_of_mem _ hd)
    rw [List.foldl_cons, List.foldl_cons]
    cases hs : tree.get? c with
    | none =>
      rw [h.get?_none hs]
      simpa only [Option.map_none, Option.getD_none, Nat.max_zero] using ih start hrest
    | some s =>
      obtain ⟨s', hs', -⟩ := h.scope c s hs
      obtain ⟨haligned, -⟩ :=
        hm c s.frame s'.frame (hids c List.mem_cons_self) (frame?_of_get? hs) (frame?_of_get? hs')
      obtain ⟨stop, hnear, hfar⟩ := haligned.stop
      have hnear : s.stop = p.near stop := hnear
      have hfar : s'.stop = p.far stop := hfar
      rw [hs', Option.map_some, Option.getD_some, Option.map_some, Option.getD_some, hnear, hfar,
        ← p.near_mono.monotone.map_max, ← p.far_mono.monotone.map_max]
      exact ih _ hrest

/-- The search for an offset goes down to counterparts. -/
theorem Matches.scopeAtWithin (h : Spliced p.insertion p.discord tree tree') (hm : Matches p tree tree')
    (offset : Nat) :
    ∀ (steps : Nat) {id : ScopeId}, p.first ≤ id →
      tree'.scopeAtWithin (p.far offset) steps (p.shift id) = p.shift (tree.scopeAtWithin (p.near offset) steps id)
  | 0, _, _ => rfl
  | steps + 1, id, hid => by
    rw [ScopeTree.scopeAtWithin, ScopeTree.scopeAtWithin]
    cases hs : tree.get? id with
    | none => simp [h.get?_none hs]
    | some s =>
      obtain ⟨s', hs', -⟩ := h.scope id s hs
      obtain ⟨haligned, hlater⟩ := hm id s.frame s'.frame hid (frame?_of_get? hs) (frame?_of_get? hs')
      have hchildren : s'.children = s.children.map p.shift := haligned.children
      have hinside : ∀ c ∈ s.children.reverse, ((tree'.get? (p.shift c)).map (·.contains (p.far offset))).getD false =
          ((tree.get? c).map (·.contains (p.near offset))).getD false := by
        intro c hc
        cases ht : tree.get? c with
        | none => rw [h.get?_none ht]; rfl
        | some t =>
          obtain ⟨t', ht', -⟩ := h.scope c t ht
          obtain ⟨hat, -⟩ := hm c t.frame t'.frame (hlater c (List.mem_reverse.1 hc)) (frame?_of_get? ht)
            (frame?_of_get? ht')
          obtain ⟨start, hnear, hfar⟩ := hat.start
          obtain ⟨stop, hnear', hfar'⟩ := hat.stop
          have hcontains : t'.contains (p.far offset) = t.contains (p.near offset) := by
            change (t'.frame.start ≤ p.far offset && p.far offset < t'.frame.stop) =
              (t.frame.start ≤ p.near offset && p.near offset < t.frame.stop)
            rw [hnear, hfar, hnear', hfar',
              decide_eq_decide.2 (p.far_mono.le_iff_le.trans p.near_mono.le_iff_le.symm),
              decide_eq_decide.2 (p.far_mono.lt_iff_lt.trans p.near_mono.lt_iff_lt.symm)]
          rw [ht', Option.map_some, Option.getD_some, Option.map_some, Option.getD_some, hcontains]
      have hfind : ∀ l : List ScopeId,
        (∀ c ∈ l, ((tree'.get? (p.shift c)).map (·.contains (p.far offset))).getD false =
          ((tree.get? c).map (·.contains (p.near offset))).getD false) →
          (l.map p.shift).find? (fun c => ((tree'.get? c).map (·.contains (p.far offset))).getD false) =
            (l.find? fun c => ((tree.get? c).map (·.contains (p.near offset))).getD false).map p.shift := by
        intro l hl
        induction l with
        | nil => rfl
        | cons c rest ih =>
          simp only [List.map_cons, List.find?_cons, hl c List.mem_cons_self]
          split
          · rfl
          · exact ih fun d hd => hl d (List.mem_cons_of_mem _ hd)
      simp only [hs', Option.bind_some, hchildren, ← List.map_reverse, hfind _ hinside]
      cases hfound : s.children.reverse.find? fun c => ((tree.get? c).map
        (·.contains (p.near offset))).getD false with
      | none => rfl
      | some c =>
        exact scopeAtWithin h hm offset steps (hlater c (List.mem_reverse.1 (List.mem_of_find?_eq_some hfound)))

/-! ### Names -/

namespace Spliced

variable {i : Insertion} {discord : Option Discord}

theorem shift_lt_size (h : Spliced i discord tree tree') (id : Nat) : i.shift id < tree'.size ↔ id < tree.size := by
  have hsize := h.size
  have hplace := h.place
  rw [Insertion.shift]
  split <;> omega

/-- A symbol is declared in a scope and in its counterpart. -/
theorem sameNames_define (h : Spliced i discord tree tree') (id : ScopeId) {symbol : Symbol}
    (hname : id = root → ∀ d ∈ discord, d.name ≠ symbol.name) :
    SameNames i discord (tree.define id symbol) (tree'.define (i.shift id) symbol) where
  symbol other name hother := by
    simp only [symbol?_define, i.shift_inj, h.shift_lt_size, h.symbol other name hother]
  discord d hd := by
    obtain ⟨hhere, hthere⟩ := h.discord d hd
    rw [symbol?_define, if_neg fun hall => hname hall.1 d hd hall.2.2.symm,
      symbol?_define, if_neg fun hall => hname (i.shift_eq_root.1 hall.1) d hd hall.2.2.symm]
    exact ⟨hhere, hthere⟩

/-- A symbol of a scope and of its counterpart is given a type. -/
theorem sameNames_retype (h : Spliced i discord tree tree') (id : ScopeId) {name : String} (type : Option Ty)
    (hname : id = root → ∀ d ∈ discord, d.name ≠ name) :
    SameNames i discord (tree.retype id name type) (tree'.retype (i.shift id) name type) where
  symbol other own hother := by
    simp only [symbol?_retype, i.shift_inj, h.symbol other own hother]
  discord d hd := by
    obtain ⟨hhere, hthere⟩ := h.discord d hd
    rw [symbol?_retype, if_neg fun hall => hname hall.1 d hd hall.2.symm,
      symbol?_retype, if_neg fun hall => hname (i.shift_eq_root.1 hall.1) d hd hall.2.symm]
    exact ⟨hhere, hthere⟩

end Spliced

end ScopeTree

/-! ### States in step -/

namespace Binder

open ScopeTree

/-- Two states in step. The open scope is the global one, or one of those that cover the tree that
is bound. -/
structure Paired (p : Pace) (b b' : Binder) : Prop where
  trees : b.tree.Spliced p.insertion p.discord b'.tree
  matched : b.tree.Matches p b'.tree
  current : b'.current = p.shift b.current
  tracks : b'.tracksAssignments = b.tracksAssignments
  valid : b.current < b.tree.size
  inside : b.current = root ∨ p.first ≤ b.current
  first : p.first ≤ b.tree.size
  starts : ∀ s s', b.tree.frame? root = some s → b'.tree.frame? root = some s' → s.start = 0 ∧ s'.start = 0
  keyed : b.tree.Keyed

variable {p : Pace} {b b' c c' : Binder}

namespace Paired

theorem counterpart (h : Paired p b b') {id : ScopeId} {s : Scope} (hs : b.tree.frame? id = some s) :
    ∃ s', b'.tree.frame? (p.shift id) = some s' ∧ s.Counterpart p id s' := by
  obtain ⟨s', hs', htwin⟩ := h.trees.frame id s hs
  refine ⟨s', hs', htwin, fun hid => h.matched id s s' hid hs hs', ?_⟩
  rintro rfl
  exact h.starts s s' hs (p.insertion.shift_root ▸ hs')

/-- Steps that leave the names as they are, after which scopes and their counterparts are alike still. -/
theorem of_counterparts (h : Paired p b b') (opened : Nat)
    (hsymbol : ∀ id name, c.tree.symbol? id name = b.tree.symbol? id name)
    (hsymbol' : ∀ id name, c'.tree.symbol? id name = b'.tree.symbol? id name)
    (hsize : c.tree.size = b.tree.size + opened) (hsize' : c'.tree.size = b'.tree.size + opened)
    (hframe : ∀ id s, c.tree.frame? id = some s →
      ∃ s', c'.tree.frame? (p.shift id) = some s' ∧ s.Counterpart p id s')
    (hothers : ∀ id, (∀ other, p.shift other ≠ id) → c'.tree.frame? id = b'.tree.frame? id)
    (hcurrent : c'.current = p.shift c.current) (hvalid : c.current < c.tree.size)
    (hinside : c.current = root ∨ p.first ≤ c.current) (htracks : c'.tracksAssignments = c.tracksAssignments)
    (hkeyed : c.tree.Keyed) : Paired p c c' where
  trees := {
    symbol := fun id name hid => by rw [hsymbol, hsymbol', h.trees.symbol id name hid]
    discord := fun d hd => by
      rw [hsymbol, hsymbol']
      exact h.trees.discord d hd
    place := hsize ▸ Nat.le_trans h.trees.place (Nat.le_add_right _ _)
    size := by rw [hsize, hsize', h.trees.size, Nat.add_right_comm]
    frame := fun id s hs => by
      obtain ⟨s', hs', hboth⟩ := hframe id s hs
      exact ⟨s', hs', hboth.twin⟩
    inserted := fun id s' hs' hother => h.trees.inserted id s' ((hothers id hother).symm.trans hs') hother }
  matched id s s' hid hs hs' := by
    obtain ⟨t, ht, hboth⟩ := hframe id s hs
    cases hs'.symm.trans ht
    exact hboth.aligned hid
  current := hcurrent
  tracks := htracks
  valid := hvalid
  inside := hinside
  first := hsize ▸ Nat.le_trans h.first (Nat.le_add_right _ _)
  starts s s' hs hs' := by
    obtain ⟨t, ht, hboth⟩ := hframe _ s hs
    rw [Pace.shift, p.insertion.shift_root] at ht
    cases hs'.symm.trans ht
    exact hboth.starts rfl
  keyed := hkeyed

/-- The scope to be opened next. -/
theorem shift_size (h : Paired p b b') : p.shift b.tree.size = b'.tree.size :=
  (p.insertion.shift_of_le h.trees.place).trans h.trees.size.symm

/-- A scope that is inserted is neither the open one nor the next. -/
theorem ne_of_unshifted (h : Paired p b b') {id : ScopeId} (hother : ∀ other, p.shift other ≠ id) :
    b'.current ≠ id ∧ id ≠ b'.tree.size :=
  ⟨fun heq => hother _ (h.current.symm.trans heq), fun heq => hother _ (h.shift_size.trans heq.symm)⟩

/-- Steps that change names only, and those alike. -/
theorem relabels (h : Paired p b b') (hc : b.Relabels c) (hc' : b'.Relabels c')
    (htracks : c.tracksAssignments = b.tracksAssignments ∧ c'.tracksAssignments = b'.tracksAssignments)
    (hnames : c.tree.SameNames p.insertion p.discord c'.tree) (hkeyed : c.tree.Keyed) : Paired p c c' where
  trees := { hnames with
    place := hc.size ▸ h.trees.place
    size := by rw [hc.size, hc'.size, h.trees.size]
    frame := fun id s hs => by
      rw [hc.frame] at hs
      rw [hc'.frame]
      exact h.trees.frame id s hs
    inserted := fun id s' hs' => by
      rw [hc'.frame] at hs'
      exact h.trees.inserted id s' hs' }
  matched id s s' hid hs hs' := by
    rw [hc.frame] at hs
    rw [hc'.frame] at hs'
    exact h.matched id s s' hid hs hs'
  current := by rw [hc.current, hc'.current, h.current]
  tracks := by rw [htracks.1, htracks.2, h.tracks]
  valid := by
    rw [hc.current, hc.size]
    exact h.valid
  inside := hc.current ▸ h.inside
  first := hc.size ▸ h.first
  starts s s' hs hs' := by
    rw [hc.frame] at hs
    rw [hc'.frame] at hs'
    exact h.starts s s' hs hs'
  keyed := hkeyed

theorem define (h : Paired p b b') (id : ScopeId) (symbol : Symbol)
    (hname : id = root → ∀ d ∈ p.discord, d.name ≠ symbol.name) :
    Paired p { b with tree := b.tree.define id symbol } { b' with tree := b'.tree.define (p.shift id) symbol } :=
  h.relabels (.define b id symbol) (.define b' _ symbol) ⟨rfl, rfl⟩ (h.trees.sameNames_define id hname)
    (h.keyed.define id symbol)

theorem retype (h : Paired p b b') (id : ScopeId) (name : String) (type : Option Ty)
    (hname : id = root → ∀ d ∈ p.discord, d.name ≠ name) :
    Paired p { b with tree := b.tree.retype id name type }
      { b' with tree := b'.tree.retype (p.shift id) name type } :=
  h.relabels (.retype b id name type) (.retype b' _ name type) ⟨rfl, rfl⟩
    (h.trees.sameNames_retype id type hname) (h.keyed.retype name type)

theorem declare (h : Paired p b b') {scope scope' : ScopeId} (hscope : scope' = p.shift scope) (name : String)
    (kind : SymbolKind) {type type' : Option Ty} (htype : type' = type)
    (hname : scope = root → ∀ d ∈ p.discord, d.name ≠ name) :
    Paired p (b.declare scope name kind type) (b'.declare scope' name kind type') := by
  rw [Binder.declare, Binder.declare, hscope, htype]
  split
  · exact h
  · exact h.define scope _ hname

theorem foldl {α : Type} {F F' : Binder → α → Binder} {l : List α}
    (hstep : ∀ {c c'}, ∀ a ∈ l, Paired p c c' → Paired p (F c a) (F' c' a)) (h : Paired p b b') :
    Paired p (l.foldl F b) (l.foldl F' b') := by
  induction l generalizing b b' with
  | nil => exact h
  | cons a rest ih =>
    exact ih (fun d hd => hstep d (List.mem_cons_of_mem _ hd)) (hstep a List.mem_cons_self h)

/-! ### What is known -/

section

variable (h : Paired p b b')

include h

theorem environment : b.environment.AgreeBut p.hidden b'.environment := by
  rw [Binder.environment, Binder.environment, h.current]
  exact h.trees.environment b.current

theorem evaluate {n : Node} (hn : n.Avoids p.hidden) :
    b'.evaluate (n.relocate p.far) = b.evaluate (n.relocate p.near) :=
  blind_typeIn h.environment n hn

theorem isSome_resolve? (name : String) :
    (b.tree.resolve? b.current name).isSome = (b'.tree.resolve? b'.current name).isSome := by
  rw [h.current]
  rcases h.trees.resolve? b.current name with heq | ⟨d, -, -, hhere, hthere⟩
  · rw [heq]
  · rw [hhere, hthere]
    rfl

theorem memberType? (object : Ty) (name : String) : b'.memberType? object name = b.memberType? object name := by
  rw [Binder.memberType?, Binder.memberType?, h.current, h.trees.lookup?]

theorem functionType {parts : FunctionParts Node} (hp : ∀ n ∈ parts.params ++ [parts.body], n.Avoids p.hidden) :
    Evaluator.functionType Node.typeIn b'.environment (parts.relocate p.far) none =
      Evaluator.functionType Node.typeIn b.environment (parts.relocate p.near) none :=
  Evaluator.Blind.functionType blind_typeIn h.environment hp none

theorem classSymbol {parts : ClassParts Node} (hp : ∀ n ∈ parts.members, n.Avoids p.hidden) (name : String) :
    b'.classSymbol (parts.relocate p.far) name = b.classSymbol (parts.relocate p.near) name := by
  rw [Binder.classSymbol, Binder.classSymbol, Evaluator.Blind.classInfo blind_typeIn h.environment hp]

theorem variableScope : b'.variableScope = p.shift b.variableScope := by
  have howns : ∀ id, ((b'.tree.get? (p.shift id)).map (·.kind.ownsVariables)).getD false =
      ((b.tree.get? id).map (·.kind.ownsVariables)).getD false := by
    intro id
    cases hs : b.tree.get? id with
    | none => rw [h.trees.get?_none hs]
    | some s =>
      obtain ⟨s', hs', htwin⟩ := h.trees.scope id s hs
      simp [hs', htwin.kind]
  rw [Binder.variableScope, Binder.variableScope, h.current, h.trees.ancestors, List.find?_map]
  rw [show ((fun id => ((b'.tree.get? id).map (·.kind.ownsVariables)).getD false) ∘ p.shift) =
    fun id => ((b.tree.get? id).map (·.kind.ownsVariables)).getD false from funext howns]
  cases (b.tree.ancestors b.current).find? fun id => ((b.tree.get? id).map (·.kind.ownsVariables)).getD false with
  | none => exact p.insertion.shift_root.symm
  | some id => rfl

theorem declarationScope (kind : VariableKind) : b'.declarationScope kind = p.shift (b.declarationScope kind) := by
  cases kind with
  | varKind => exact h.variableScope
  | letKind | constKind => exact h.current

/-- The result of a bound function. -/
theorem result? {scope : ScopeId} (hscope : p.first ≤ scope) {body : Node} (hb : body.Avoids p.hidden) :
    b'.result? (p.shift scope) (body.relocate p.far) = b.result? scope (body.relocate p.near) := by
  have hargument : ∀ n ∈ body.returned,
    b'.tree.evaluate (b'.tree.scopeAt (p.shift scope) (n.relocate p.far).start) (n.relocate p.far) =
      b.tree.evaluate (b.tree.scopeAt scope (n.relocate p.near).start) (n.relocate p.near) := by
    intro n hn
    rw [Node.start_relocate, Node.start_relocate, scopeAt, h.matched.scopeAtWithin h.trees _ _ hscope]
    exact h.trees.evaluate _ (hb.of_contains (Node.contains_of_mem_returned body hn))
  rw [Binder.result?, Binder.result?, Node.returned_relocate, Node.returned_relocate, List.findSome?_map,
    List.findSome?_map]
  generalize body.returned = arguments at hargument ⊢
  induction arguments with
  | nil => rfl
  | cons n rest ih =>
    simp only [List.findSome?_cons, Function.comp_apply, hargument n List.mem_cons_self,
      ih fun m hm => hargument m (List.mem_cons_of_mem _ hm)]

end

/-! ### Names are declared -/

/-- The name that a node is or declares may be declared in any scope. -/
theorem not_hidden {n : Node} (hn : n.Avoids p.hidden) (name : String) (hname : n.kind.named? = some name) :
    ∀ d ∈ p.discord, d.name ≠ name := by
  rintro d hd rfl
  exact hn n (.self n) d.name (Option.mem_map_of_mem _ hd) hname

theorem hoist (h : Paired p b b') {l : List Node} (hl : AllAvoid p.hidden l) :
    Paired p (b.hoist (relocateAll p.near l)) (b'.hoist (relocateAll p.far l)) := by
  rw [relocateAll_eq_map, relocateAll_eq_map, Binder.hoist, List.foldl_map, Binder.hoist, List.foldl_map]
  refine foldl (fun n hn hc => ?_) h
  have hname := not_hidden (hl n hn)
  obtain ⟨range, kind⟩ := n
  cases kind with
  | functionDeclaration parts =>
    have htype := hc.functionType (hl _ hn).children
    simp only [Node.relocate, NodeKind.relocate, Node.kind, FunctionParts.relocate_eq] at htype ⊢
    cases hparts : parts.name with
    | none => exact hc
    | some name =>
      rw [hparts] at htype
      exact hc.declare hc.current name _ (congrArg some htype) fun _ => hname name hparts
  | _ => exact hc

/-- The members of a class are declared in a scope of their own. -/
theorem declareMembers (h : Paired p b b') (hin : p.first ≤ b.current) (symbol : Symbol) :
    Paired p (b.declareMembers symbol) (b'.declareMembers symbol) := by
  rw [Binder.declareMembers, Binder.declareMembers]
  split
  · rename_i info _
    have hstep : ∀ (l : List (ClassMember Ty)) {c c' : Binder}, p.first ≤ c.current → Paired p c c' →
        Paired p (l.foldl (fun b m => b.declare b.current m.name (.ofMember m.kind) (some m.type)) c)
          (l.foldl (fun b m => b.declare b.current m.name (.ofMember m.kind) (some m.type)) c') := by
      intro l
      induction l with
      | nil => exact fun _ hc => hc
      | cons m rest ih =>
        intro c c' hin hc
        refine ih ?_ (hc.declare hc.current m.name _ rfl fun hroot => absurd hroot (p.ne_root hin))
        rw [(Relabels.declare c ..).current]
        exact hin
    exact hstep info.members hin h
  · exact h

/-! ### What a scope belongs to -/

/-- A scope with what it belongs to changed. -/
def furnished (classOf functionOf : Option Symbol → Option Symbol) (static : Bool → Bool) (s : Scope) : Scope :=
  { s with
    classSymbol := classOf s.classSymbol
    functionSymbol := functionOf s.functionSymbol
    isStatic := static s.isStatic }

theorem frame?_furnish (t : ScopeTree) (own id : ScopeId) (classOf functionOf : Option Symbol → Option Symbol)
    (static : Bool → Bool) : (t.modify own (furnished classOf functionOf static)).frame? id =
      if own = id then (t.frame? id).map (furnished classOf functionOf static) else t.frame? id := by
  rw [frame?, get?_modify, frame?]
  split
  · rw [Option.map_map, Option.map_map]
    rfl
  · rfl

theorem furnish (h : Paired p b b') (classOf functionOf functionOf' : Option Symbol → Option Symbol)
    (static : Bool → Bool) :
    Paired p { b with tree := b.tree.modify b.current (furnished classOf functionOf static) }
      { b' with tree := b'.tree.modify b'.current (furnished classOf functionOf' static) } := by
  refine h.of_counterparts 0 (fun id name => symbol?_modify fun _ => rfl) (fun id name => symbol?_modify fun _ => rfl)
    (size_modify _) (size_modify _) (fun id s hs => ?_)
    (fun id hother => (frame?_furnish ..).trans (if_neg (h.ne_of_unshifted hother).1)) h.current
    (Nat.lt_of_lt_of_eq h.valid (size_modify _).symm) h.inside h.tracks (h.keyed.modify_same fun _ => rfl)
  simp only [frame?_furnish, h.current, p.insertion.shift_inj] at hs ⊢
  split at hs
  · rename_i heq
    obtain ⟨r, hr, rfl⟩ := Option.map_eq_some_iff.1 hs
    obtain ⟨r', hr', hboth⟩ := h.counterpart hr
    rw [if_pos heq, hr']
    refine ⟨_, rfl, ⟨hboth.twin.kind, hboth.twin.parent, hboth.twin.depth, congrArg classOf hboth.twin.classSymbol,
      congrArg static hboth.twin.isStatic⟩, fun hid => ?_, hboth.starts⟩
    obtain ⟨haligned, hlater⟩ := hboth.aligned hid
    exact ⟨⟨haligned.start, haligned.stop, haligned.children⟩, hlater⟩
  · rename_i hne
    rw [if_neg hne]
    exact h.counterpart hs

theorem setClass (h : Paired p b b') (symbol : Symbol) : Paired p (b.setClass symbol) (b'.setClass symbol) :=
  h.furnish (fun _ => some symbol) id id id

/-- The symbols of the function may differ. -/
theorem setFunction (h : Paired p b b') {symbol symbol' : Option Symbol} (hsome : symbol.isSome = symbol'.isSome)
    (isStatic : Bool) : Paired p (b.setFunction symbol isStatic) (b'.setFunction symbol' isStatic) := by
  cases symbol with
  | none =>
    cases symbol' with
    | none => exact h
    | some _ => cases hsome
  | some s =>
    cases symbol' with
    | none => cases hsome
    | some s' => exact h.furnish id (fun _ => some s) (fun _ => some s') fun _ => isStatic

/-! ### A scope is opened and left -/

theorem enter (h : Paired p b b') (kind : ScopeKind) (start : Nat) :
    Paired p (b.enter kind (p.near start)) (b'.enter kind (p.far start)) := by
  obtain ⟨above, habove⟩ := exists_frame?_of_lt h.valid
  obtain ⟨above', habove', hboth⟩ := h.counterpart habove
  obtain ⟨hopen, hsize, hframe⟩ := frame?_enter_max kind (p.near start) habove
  obtain ⟨hopen', hsize', hframe'⟩ := frame?_enter_max kind (p.far start) (h.current.symm ▸ habove')
  -- the new scope starts where it is to, or where the scope around it does
  have hstart : ∃ a, max (p.near start) above.start = p.near a ∧ max (p.far start) above'.start = p.far a := by
    rcases h.inside with hroot | hin
    · obtain ⟨hzero, hzero'⟩ := hboth.starts hroot
      exact ⟨start, by rw [hzero, Nat.max_zero], by rw [hzero', Nat.max_zero]⟩
    · obtain ⟨a, ha, ha'⟩ := (hboth.aligned hin).1.start
      exact ⟨max start a, by rw [ha, p.near_mono.monotone.map_max], by rw [ha', p.far_mono.monotone.map_max]⟩
  refine h.of_counterparts 1 (b.symbol?_enter kind _) (b'.symbol?_enter kind _) hsize hsize' (fun id s hs => ?_)
    (fun id hother => ?_) (by rw [hopen, hopen', h.shift_size]) (by rw [hopen, hsize]; exact Nat.lt_succ_self _)
    (.inr (hopen ▸ h.first)) (by rw [tracksAssignments_enter, tracksAssignments_enter, h.tracks])
    (Step.keyed (.enter kind (Nat.le_refl _)) h.keyed)
  · simp only [hframe, hframe', ← h.shift_size, h.current, p.insertion.shift_inj] at hs ⊢
    split at hs
    · rename_i heq
      cases hs
      rw [if_pos heq]
      exact ⟨_, rfl, ⟨rfl, rfl, congrArg (· + 1) hboth.twin.depth, rfl, rfl⟩,
        fun _ => ⟨⟨hstart, hstart, rfl⟩, by simp [Scope.opened]⟩,
        fun hroot => absurd (heq.symm.trans hroot) (Nat.ne_of_gt (Nat.zero_lt_of_lt h.valid))⟩
    · rename_i hne
      rw [if_neg hne]
      split at hs
      · rename_i heq
        cases hs
        rw [if_pos heq]
        refine ⟨_, rfl, ⟨hboth.twin.kind, hboth.twin.parent, hboth.twin.depth, hboth.twin.classSymbol,
          hboth.twin.isStatic⟩, fun hid => ?_, fun hroot => hboth.starts (heq.symm.trans hroot)⟩
        obtain ⟨haligned, hlater⟩ := hboth.aligned (heq ▸ hid)
        refine ⟨⟨haligned.start, haligned.stop, by simp [haligned.children]⟩, fun c hc => ?_⟩
        exact (List.mem_append.1 hc).elim (hlater c) fun hc => List.mem_singleton.1 hc ▸ h.first
      · rename_i hne'
        rw [if_neg hne']
        exact h.counterpart hs
  · obtain ⟨hopenScope, hnew⟩ := h.ne_of_unshifted hother
    rw [hframe', if_neg hnew, if_neg hopenScope.symm]

/-- The scope that is opened is one of those that cover the tree that is bound. -/
theorem first_le_enter (h : Paired p b b') (kind : ScopeKind) (start : Nat) :
    p.first ≤ (b.enter kind start).current := by
  obtain ⟨above, habove⟩ := exists_frame?_of_lt h.valid
  rw [(frame?_enter_max kind start habove).1]
  exact h.first

theorem leave (h : Paired p b b') (hin : p.first ≤ b.current) (stop : Nat) {back : ScopeId}
    (hback : (b.leave (p.near stop)).current = back) (hvalid : back < b.tree.size)
    (hinside : back = root ∨ p.first ≤ back) : Paired p (b.leave (p.near stop)) (b'.leave (p.far stop)) := by
  obtain ⟨own, hown⟩ := exists_frame?_of_lt h.valid
  obtain ⟨own', hown', hboth⟩ := h.counterpart hown
  obtain ⟨hparent, hsize, hframe⟩ := frame?_leave (p.near stop) hown
  obtain ⟨hparent', hsize', hframe'⟩ := frame?_leave (p.far stop) (h.current.symm ▸ hown')
  obtain ⟨haligned, hlater⟩ := hboth.aligned hin
  -- the scope is closed where it is to be, or where the last scope in it is
  have hstop : ∃ a, max (max (p.near stop) own.start) (b.tree.lastStop own.children) = p.near a ∧
      max (max (p.far stop) own'.start) (b'.tree.lastStop own'.children) = p.far a := by
    obtain ⟨start, hnear, hfar⟩ := haligned.start
    rw [hnear, hfar, haligned.children, ← p.near_mono.monotone.map_max, ← p.far_mono.monotone.map_max]
    exact h.matched.lastStop h.trees _ hlater
  refine h.of_counterparts 0 (symbol?_leave _) (symbol?_leave _) hsize hsize' (fun id s hs => ?_)
    (fun id hother => ?_) ?_ (by rw [hback, hsize]; exact hvalid) (hback ▸ hinside) h.tracks (Step.keyed (.leave (Nat.le_refl _)) h.keyed)
  · simp only [hframe, hframe', h.current, p.insertion.shift_inj] at hs ⊢
    split at hs
    · rename_i heq
      cases hs
      rw [if_pos heq]
      exact ⟨_, rfl, ⟨hboth.twin.kind, hboth.twin.parent, hboth.twin.depth, hboth.twin.classSymbol,
          hboth.twin.isStatic⟩,
        fun _ => ⟨⟨haligned.start, hstop, haligned.children⟩, hlater⟩,
        fun hroot => hboth.starts (heq.symm.trans hroot)⟩
    · rename_i hne
      rw [if_neg hne]
      exact h.counterpart hs
  · rw [hframe', if_neg (h.ne_of_unshifted hother).1.symm]
  · rw [hparent', hparent, hboth.twin.parent, h.current]
    cases own.parent <;> rfl

/-- **A walk in a scope of its own**: if the states at its end are in step, so are those once the
scope is left. -/
theorem scope {kind : ScopeKind} {start stop : Nat} {e e' : Binder} (h : Paired p b b')
    (hc : (b.enter kind (p.near start)).Tunes c) (hkeeps : c.Keeps e) (he : Paired p e e') :
    Paired p (e.leave (p.near stop)) (e'.leave (p.far stop)) := by
  obtain ⟨above, habove⟩ := exists_current h.valid
  obtain ⟨hcurrent, hsize, -⟩ := hc.opened habove
  have hretains := hkeeps (by rw [hcurrent, hsize]; exact Nat.lt_succ_self _)
  obtain ⟨hback, -⟩ := left_of_keeps (p.near stop) hc hkeeps habove
  refine he.leave ?_ stop hback.current ?_ h.inside
  · rw [hretains.current, hcurrent]
    exact h.first
  · exact Nat.lt_of_lt_of_le h.valid (Nat.le_trans hback.size (Nat.le_of_eq (size_modify _)))

/-! ### Types that are told later -/

theorem refineResult (h : Paired p b b') (declaredIn : ScopeId) {name : String}
    (hname : ∀ d ∈ p.discord, d.name ≠ name)
    {scope : ScopeId} (hscope : p.first ≤ scope) (parts : FunctionParts Node) (hbody : parts.body.Avoids p.hidden) :
    Paired p (b.refineResult declaredIn name scope (parts.relocate p.near))
      (b'.refineResult (p.shift declaredIn) name (p.shift scope) (parts.relocate p.far)) := by
  simp only [Binder.refineResult, FunctionParts.relocate_eq, h.result? hscope hbody,
    h.trees.symbol declaredIn name fun _ => hname]
  split
  · exact h
  · split
    · exact h.retype declaredIn name _ fun _ => hname
    · exact h

theorem trackAssignment (h : Paired p b b') {n : Node} (hn : n.Avoids p.hidden) :
    Paired p (b.trackAssignment (n.relocate p.near)) (b'.trackAssignment (n.relocate p.far)) := by
  obtain ⟨range, kind⟩ := n
  have hc := hn.children
  cases kind with
  | assignment operator target value =>
    have htarget := hc target List.mem_cons_self
    have hvalue := h.evaluate (hc value (by simp [NodeKind.children]))
    by_cases hop : operator = .punct .equals
    · subst hop
      simp only [Binder.trackAssignment, Node.relocate, NodeKind.relocate, Node.kind, Node.identifier?_relocate,
        h.current, hvalue]
      cases hname : target.identifier? with
      | none => exact h
      | some name =>
        have hhidden := not_hidden htarget name (Node.named?_of_identifier? hname)
        rcases h.trees.resolveWithScope? b.current name with heq | ⟨d, hd, hdname, -⟩
        · rw [Option.bind_some, Option.bind_some, heq]
          cases hresolved : b.tree.resolveWithScope? b.current name with
          | none => exact h
          | some found =>
            obtain ⟨owner, symbol⟩ := found
            have hkey : symbol.name = name := h.keyed.name_eq (resolveWithScope?_eq_some hresolved).2
            have hretype := h.retype owner symbol.name (some (b.evaluate (value.relocate p.near)))
              fun _ => hkey ▸ hhidden
            rw [h.current] at hretype
            simp only [Option.map_some, Prod.map]
            split
            · split
              · exact h
              · exact hretype
            · exact h
        · exact absurd hdname (hhidden d hd)
    · have hnone : ∀ (b : Binder) (range : TextRange) (target value : Node),
          b.trackAssignment ⟨range, .assignment operator target value⟩ = b := by
        intro b range target value
        rw [Binder.trackAssignment]
        split
        · rename_i heq
          cases heq
          exact absurd rfl hop
        · rfl
      simp only [Node.relocate, NodeKind.relocate, hnone]
      exact h
  | _ => exact h

end Paired

end Binder
end Typeahead
