/-
# A declaration of a function is moved to the front

The functions of a list of statements are declared before any statement is bound, and each is bound
where it stands, when what it returns may be told better. So it may matter where one stands: to the
statements between the two places, whose names may get other types if the function is bound before
them. Where the function is known by the same type to those who mention it, and where nothing else
is recorded differently on its account, it does not.

Key definitions: `ScopeTree.AgreeBut`, `Node.DeclaresFunction`, `Binder.MovesFreely`.
Key theorems: `agreeBut_statements`, `function_moved_to_front`.
-/
import Mathlib
import Typeahead.Proofs.Hoisting.Alongside
import Typeahead.Proofs.Parse.Same

namespace Typeahead

/-! ### Functions of the global scope -/

/-- The symbol of a function. -/
structure Symbol.IsFunction (symbol : Symbol) : Prop where
  kind : symbol.kind = .function
  type : ∃ own params result, symbol.type = some (.function own params result)

namespace Symbol.IsFunction

variable {symbol : Symbol}

theorem known (h : symbol.IsFunction) : symbol.typeOrUnknown.isUnknown = false := by
  obtain ⟨own, params, result, htype⟩ := h.type
  rw [typeOrUnknown, htype]
  rfl

theorem not_class (h : symbol.IsFunction) (info : ClassInfo Ty) : symbol.type ≠ some (.class info) := by
  obtain ⟨own, params, result, htype⟩ := h.type
  rw [htype]
  exact fun heq => by cases heq

theorem not_member (h : symbol.IsFunction) : symbol.kind.isMember = false := by
  rw [h.kind]
  rfl

end Symbol.IsFunction

/-- The declaration of a function under a name that nothing in it declares. -/
structure Node.DeclaresFunction (d : Node) (name : String) : Prop where
  named : ∃ parts, d.kind = .functionDeclaration parts ∧ parts.name = some name
  nonempty : name.isEmpty = false
  once : AllThroughout (name ∉ ·.declares) d.kind.children

theorem Node.Moved.declaresFunction {d d' : Node} {name : String} (h : d.Moved d') (hd : d.DeclaresFunction name) :
    d'.DeclaresFunction name := by
  obtain ⟨origin, f, g, -, -, rfl, rfl⟩ := h
  have hQ : ∀ (place : Nat → Nat) (kind : NodeKind), name ∉ (kind.relocate place).declares ↔ name ∉ kind.declares :=
    fun place kind => by rw [kind.declares_relocate]
  refine ⟨?_, hd.nonempty, fun c hc => ?_⟩
  · obtain ⟨parts, hkind, hname⟩ := hd.named
    rw [kind_relocate] at hkind ⊢
    cases hown : origin.kind with
    | functionDeclaration own =>
      rw [hown] at hkind
      cases hkind
      exact ⟨_, rfl, by simpa using hname⟩
    | _ =>
      rw [hown] at hkind
      cases hkind
  · rw [kind_relocate, NodeKind.children_relocate] at hc
    obtain ⟨m, hm, rfl⟩ := List.mem_map.1 hc
    refine (throughout_relocate (hQ g)).2 ((throughout_relocate (hQ f)).1 (hd.once _ ?_))
    rw [kind_relocate, NodeKind.children_relocate]
    exact List.mem_map_of_mem hm

/-- The global scopes of two trees hold the same, but for one name. -/
def ScopeTree.AgreeBut (name : String) (tree tree' : ScopeTree) : Prop :=
  ∀ other ≠ name, tree'.symbol? root other = tree.symbol? root other

theorem ScopeTree.AgreeBut.of_symbols {name : String} {tree tree' : ScopeTree}
    (h : (tree'.get? root).map (·.symbols) = (tree.get? root).map (·.symbols)) : tree.AgreeBut name tree' := by
  intro other _
  have hbind : ∀ t : ScopeTree, t.symbol? root other = ((t.get? root).map (·.symbols)).bind (·.get? other) :=
    fun t => by
    rw [symbol?, Option.bind_map]
    rfl
  rw [hbind, hbind, h]

namespace Binder

open ScopeTree

variable {b : Binder} {name : String} {d : Node}

/-- The global scope holds a function of a name. -/
def HasFunction (b : Binder) (name : String) : Prop :=
  ∃ symbol, b.tree.symbol? root name = some symbol ∧ symbol.IsFunction

/-- What is declared before a list of statements is bound. -/
theorem hoist_cons (b : Binder) (n : Node) (l : List Node) : ∃ c : Binder, b.hoist (n :: l) = c.hoist l ∧
    (c = b ∨ ∃ own params result other,
      c = b.declare b.current other .function (some (.function own params result))) ∧
      ∀ name, n.DeclaresFunction name →
        ∃ own params result, c = b.declare b.current name .function (some (.function own params result)) := by
  obtain ⟨range, kind⟩ := n
  have hother : (∀ parts, kind ≠ .functionDeclaration parts) → ∀ name, ¬ Node.DeclaresFunction ⟨range, kind⟩ name :=
    fun hkind name hd => by
      obtain ⟨parts, heq, -⟩ := hd.named
      exact hkind parts heq
  cases kind with
  | functionDeclaration parts =>
    obtain ⟨own, params, body, isAsync⟩ := parts
    cases own with
    | none =>
      refine ⟨b, rfl, .inl rfl, fun name hd => ?_⟩
      obtain ⟨parts, heq, hname⟩ := hd.named
      cases heq
      cases hname
    | some own =>
      refine ⟨_, rfl, .inr ⟨_, _, _, own, rfl⟩, fun name hd => ?_⟩
      obtain ⟨parts, heq, hname⟩ := hd.named
      cases heq
      cases hname
      exact ⟨_, _, _, rfl⟩
  | _ => exact ⟨b, rfl, .inl rfl, fun name hd => absurd hd (hother (fun _ heq => by cases heq) name)⟩

theorem hasFunction_declare (hne : name.isEmpty = false) (hroot : b.current = root) (hvalid : b.current < b.tree.size)
    (own : Option String) (params : List String) (result : Ty) :
    (b.declare b.current name .function (some (.function own params result))).HasFunction name := by
  refine ⟨⟨name, .function, some (.function own params result)⟩, ?_, rfl, own, params, result, rfl⟩
  rw [declare, hne, if_neg Bool.false_ne_true]
  rw [symbol?_define, if_pos ⟨hroot, hroot ▸ hvalid, rfl⟩]

theorem HasFunction.declare (h : b.HasFunction name) (scope : ScopeId) (other : String) (own : Option String)
    (params : List String)
    (result : Ty) : (b.declare scope other .function (some (.function own params result))).HasFunction name := by
  rw [Binder.declare]
  split
  · exact h
  · obtain ⟨symbol, hsymbol, hfunction⟩ := h
    by_cases hhere : scope = root ∧ root < b.tree.size ∧ other = name
    · refine ⟨⟨other, .function, some (.function own params result)⟩, ?_, rfl, own, params, result, rfl⟩
      rw [symbol?_define, if_pos hhere]
    · refine ⟨symbol, ?_, hfunction⟩
      rw [symbol?_define, if_neg hhere, hsymbol]

/-- **A function that is declared in a list of statements is known from its start.** -/
theorem hasFunction_hoist {l : List Node} (hroot : b.current = root)
    (hvalid : b.current < b.tree.size) (hd : d.DeclaresFunction name) (h : b.HasFunction name ∨ d ∈ l) :
    (b.hoist l).HasFunction name := by
  induction l generalizing b with
  | nil => exact h.resolve_right List.not_mem_nil
  | cons n rest ih =>
    obtain ⟨c, heq, hstep, hdeclares⟩ := b.hoist_cons n rest
    have hsame : c.current = b.current ∧ c.tree.size = b.tree.size := by
      rcases hstep with rfl | ⟨own, params, result, other, rfl⟩
      · exact ⟨rfl, rfl⟩
      · exact ⟨(Relabels.declare b ..).current, (Relabels.declare b ..).size⟩
    rw [heq]
    refine ih (hsame.1.trans hroot) (hsame.1.symm ▸ hsame.2.symm ▸ hvalid) ?_
    rcases h with h | h
    · refine .inl ?_
      rcases hstep with rfl | ⟨own, params, result, other, rfl⟩
      · exact h
      · exact h.declare ..
    · rcases List.mem_cons.1 h with rfl | h
      · obtain ⟨own, params, result, rfl⟩ := hdeclares name hd
        exact .inl (hasFunction_declare hd.nonempty hroot hvalid own params result)
      · exact .inr h

/-- A function that is bound is known as a function. -/
theorem hasFunction_statement {symbol : Symbol} (hf : symbol.IsFunction) (h : b.Known symbol)
    (hroot : b.current = root) (hd : d.DeclaresFunction symbol.name) :
    (statement d b).HasFunction symbol.name := by
  obtain ⟨parts, hkind, hname⟩ := hd.named
  have honce := hd.once
  obtain ⟨range, kind⟩ := d
  subst hkind
  have hbound := stable_function (stable_known hf.known) parts range.start
    (parts.name.bind (b.tree.resolve? b.current)) false honce h
  have hkeeps : ∀ {c : Binder}, c.Known symbol → c.HasFunction symbol.name := fun hc => ⟨symbol, hc.symbol, hf⟩
  rw [statement, hname] at *
  dsimp only
  rw [refineResult]
  split
  · exact hkeeps hbound
  · split
    · rename_i type own params _ _
      refine ⟨{ symbol with type := some (.function own params type) }, ?_, hf.kind, own, params, type, rfl⟩
      rw [symbol?_retype, if_pos ⟨hroot, rfl⟩, hbound.symbol]
      rfl
    · exact hkeeps hbound

/-! ### The two orders -/

/-- The declaration `d` of a function may be bound before the statements `pre` and not behind them,
as `d'`, without a change of what is recorded for others. In the states `b` and `b'` the functions
are declared, in the two orders. -/
structure MovesFreely (name : String) (b b' : Binder) (pre : List Node) (d d' : Node) (post : List Node) : Prop where
  /-- The other functions are declared with the same types. -/
  hoisted : b.tree.AgreeBut name b'.tree
  /-- The function tells no type of another name where it stands. -/
  behind : (statements pre b).tree.AgreeBut name (statement d (statements pre b)).tree
  /-- Nor does it at the front. -/
  front : b'.tree.AgreeBut name (statement d' b').tree
  /-- The function has the same type for the statements before it, if they mention it. -/
  before : (statement d' b').tree.symbol? root name = b.tree.symbol? root name ∨ ∀ n ∈ pre, ¬ n.Mentions name
  /-- And so it has for the statements behind it. -/
  after : (statement d' b').tree.symbol? root name = (statement d (statements pre b)).tree.symbol? root name ∨
    ∀ n ∈ post, ¬ n.Mentions name

/-- The name of a function that has two types, where nobody mentions it. -/
theorem exists_discord {symbol symbol' : Symbol} (hs : symbol.IsFunction) (hs' : symbol'.IsFunction) {l : List Node}
    (h : some symbol' = some symbol ∨ ∀ n ∈ l, ¬ n.Mentions name) : ∃ discord : Option Discord,
      (∀ d ∈ discord, d.name = name ∧ d.here = symbol ∧ d.there = symbol') ∧ (discord = none → symbol' = symbol) ∧
        ∀ n ∈ l, ∀ d ∈ discord, ¬ n.Mentions d.name := by
  rcases h with heq | h
  · exact ⟨none, by simp, fun _ => Option.some.inj heq, by simp⟩
  · refine ⟨some ⟨name, symbol, symbol', ⟨hs.not_member, hs'.not_member⟩,
      fun info => ⟨hs.not_class info, hs'.not_class info⟩⟩, ?_, nofun, ?_⟩
    · intro e he
      cases he
      exact ⟨rfl, rfl, rfl⟩
    · intro n hn e he
      cases he
      exact h n hn

/-- The state in which the statements of a script are bound. -/
def startOf (tracksAssignments : Bool) (body : List Node) : Binder := (Binder.start tracksAssignments).hoist body

/-- A state in which nothing but the functions of a script is declared. -/
structure Started (tracksAssignments : Bool) (b : Binder) : Prop where
  orderly : b.Orderly
  current : b.current = root
  size : b.tree.size = 1
  frame : ∀ id, b.tree.frame? id = (Binder.start true).tree.frame? id
  tracks : b.tracksAssignments = tracksAssignments

theorem started_startOf (tracksAssignments : Bool) (body : List Node) :
    Started tracksAssignments (startOf tracksAssignments body) where
  orderly := stable_orderly.hoist (allThroughout_true body) (.start tracksAssignments)
  current := (Relabels.hoist _ body).current
  size := (Relabels.hoist _ body).size
  frame := (Relabels.hoist _ body).frame
  tracks := (stable_tracks tracksAssignments).hoist (allThroughout_true body) rfl

theorem Started.symbol?_eq_none {tracksAssignments : Bool} (h : Started tracksAssignments b) {id : ScopeId}
    (hid : id ≠ root) (name : String) : b.tree.symbol? id name = none := by
  have hsize : b.tree.size ≤ id := h.size ▸ Nat.pos_of_ne_zero hid
  rw [symbol?, get?_eq_none_iff.2 hsize]
  rfl

/-- A statement without classes inserts scopes: the state in which it was not bound is in step with that
in which it was, if it has the names that the statement tells. -/
theorem exists_alongside {r : Binder} {discord : Option Discord} (hb : b.Orderly) (hcurrent : b.current = root)
    (hd : d.Throughout (·.classBody? = none)) (hr : r.Orderly) (hr' : r.current = root)
    (htracks : r.tracksAssignments = b.tracksAssignments) (hframe : ∀ id, r.tree.frame? id = b.tree.frame? id)
    (hsize : r.tree.size = b.tree.size)
    (hsymbol : ∀ id ≠ root, ∀ name, r.tree.symbol? id name = b.tree.symbol? id name)
    (hroot : ∀ name, (∀ e ∈ discord, e.name ≠ name) → (statement d b).tree.symbol? root name =
      r.tree.symbol? root name)
    (hdiscord : ∀ e ∈ discord, r.tree.symbol? root e.name = some e.here ∧
      (statement d b).tree.symbol? root e.name = some e.there) :
    ∃ i, Alongside i discord r (statement d b) := by
  have hinward := stable_statement stable_inward d hd (.start hb hcurrent)
  exact ⟨_, spliced_of_inward hb hinward hframe hsize hsymbol hroot hdiscord, hr,
    stable_statement stable_orderly d (fun _ _ => trivial) hb, hr',
      (keeps_statement d b hb.valid).current.trans hcurrent,
    (stable_statement (stable_tracks _) d (fun _ _ => trivial) rfl).trans htracks.symm⟩

/-- The symbol of a function that is moved: as it is declared before all, as it is where the function is
bound, and as it is where the function is bound at the front. -/
structure FunctionSymbols (b b' : Binder) (pre : List Node) (d d' : Node) (early placed front : Symbol) : Prop where
  declared : b.tree.symbol? root early.name = some early
  bound : (statement d (statements pre b)).tree.symbol? root early.name = some placed
  moved : (statement d' b').tree.symbol? root early.name = some front
  name : placed.name = early.name
  early : early.IsFunction
  placed : placed.IsFunction
  front : front.IsFunction

section

variable {b' : Binder} {tracksAssignments : Bool} {pre pre' post post' : List Node} {d' : Node}
variable {early placed front : Symbol}

theorem exists_functionSymbols (hb : b.Orderly) (hb' : b'.Orderly) (hcurrent : b.current = root)
    (hcurrent' : b'.current = root) (h : b.HasFunction name) (h' : b'.HasFunction name)
    (hd : d.DeclaresFunction name) (hd' : d'.DeclaresFunction name)
    (honce : AllThroughout (name ∉ ·.declares) pre) :
    ∃ early placed front, early.name = name ∧ FunctionSymbols b b' pre d d' early placed front := by
  obtain ⟨early, hearly, hE⟩ := h
  obtain rfl := hb.keyed.name_eq hearly
  have hknown := stable_statements (stable_known hE.known) pre honce ⟨hb.keyed, hearly⟩
  have hpre := stable_statements stable_orderly pre (allThroughout_true pre) hb
  have hpreCurrent := (keeps_statements pre b hb.valid).current.trans hcurrent
  obtain ⟨placed, hplaced, hP⟩ := hasFunction_statement hE hknown hpreCurrent hd
  obtain ⟨front, hfront, hF⟩ : (statement d' b').HasFunction early.name := by
    obtain ⟨early', hearly', hE'⟩ := h'
    have hname := hb'.keyed.name_eq hearly'
    rw [← hname] at hearly' hd' ⊢
    exact hasFunction_statement hE' ⟨hb'.keyed, hearly'⟩ hcurrent' hd'
  have hname := (stable_statement stable_orderly d (fun _ _ => trivial) hpre).keyed.name_eq hplaced
  exact ⟨early, placed, front, rfl, hearly, hplaced, hfront, hname, hE, hP, hF⟩

/-- The statements before the function are bound in step, whether it is bound at the front or not. -/
theorem exists_alongside_before (hb : Started tracksAssignments b) (hb' : Started tracksAssignments b')
    (hs : FunctionSymbols b b' pre d d' early placed front) (hpre : List.Forall₂ Node.Moved pre pre')
    (honce : AllThroughout (early.name ∉ ·.declares) pre) (hclass : d'.Throughout (·.classBody? = none))
    (h : MovesFreely early.name b b' pre d d' post) :
    ∃ i discord, Alongside i discord (statements pre b) (statements pre' (statement d' b')) ∧
      (∀ e ∈ discord, e.name = early.name) ∧
      (statements pre' (statement d' b')).tree.symbol? root early.name = some front := by
  obtain ⟨discord, hdiscord, hsame, hmention⟩ :=
    exists_discord hs.early hs.front (by rw [← hs.moved, ← hs.declared]; exact h.before)
  obtain ⟨i, hstart⟩ : ∃ i, Alongside i discord b (statement d' b') := by
    refine exists_alongside hb'.orderly hb'.current hclass hb.orderly hb.current (hb.tracks.trans hb'.tracks.symm)
      (fun id => (hb.frame id).trans (hb'.frame id).symm) (hb.size.trans hb'.size.symm)
      (fun id hid own => (hb.symbol?_eq_none hid own).trans (hb'.symbol?_eq_none hid own).symm)
        (fun own hown => ?_) fun e he => ?_
    · by_cases hname : own = early.name
      · cases discord with
        | none => rw [hname, hs.moved, hs.declared, hsame rfl]
        | some e => exact absurd ((hdiscord e rfl).1.trans hname.symm) (hown e rfl)
      · rw [h.front own hname, h.hoisted own hname]
    · obtain ⟨hname, hhere, hthere⟩ := hdiscord e he
      rw [hname, hhere, hthere]
      exact ⟨hs.declared, hs.moved⟩
  have hbefore := hstart.statements hpre hmention
  refine ⟨i, discord, hbefore, fun e he => (hdiscord e he).1, ?_⟩
  cases discord with
  | none =>
    have hknown := stable_statements (stable_known hs.early.known) pre honce ⟨hb.orderly.keyed, hs.declared⟩
    have hsymbol := hbefore.trees.symbol root early.name (by simp)
    rw [i.shift_root, hknown.symbol] at hsymbol
    rw [hsymbol, hsame rfl]
  | some e =>
    obtain ⟨hname, -, hthere⟩ := hdiscord e rfl
    rw [← hthere, ← hname]
    exact (hbefore.trees.discord e rfl).2

/-- The state before the function, with the symbol that it gets where it is bound. -/
def given (b : Binder) (pre : List Node) (placed : Symbol) : Binder :=
  { statements pre b with tree := (statements pre b).tree.define root placed }

/-- The statements behind the function are bound in step with those of the other order, if it is known by
what it gets. -/
theorem exists_alongside_moved (hb : Started tracksAssignments b) (hb' : Started tracksAssignments b')
    (hs : FunctionSymbols b b' pre d d' early placed front) (hpre : List.Forall₂ Node.Moved pre pre')
    (hpost : List.Forall₂ Node.Moved post post') (honce : AllThroughout (early.name ∉ ·.declares) pre)
    (hclass : d'.Throughout (·.classBody? = none)) (h : MovesFreely early.name b b' pre d d' post) :
    ∃ i discord, Alongside i discord (statements post (given b pre placed))
      (statements post' (statements pre' (statement d' b'))) ∧
      ∀ e ∈ discord, e.name = early.name := by
  obtain ⟨i, discord, hbefore, hdiscord, hkept⟩ := exists_alongside_before hb hb' hs hpre honce hclass h
  obtain ⟨discord', hdiscord', hsame, hmention⟩ :=
    exists_discord hs.placed hs.front (by rw [← hs.moved, ← hs.bound]; exact h.after)
  have hthen : Alongside i discord' (given b pre placed) (statements pre' (statement d' b')) := by
    refine hbefore.redefine placed (fun e he => (hdiscord e he).trans hs.name.symm) (fun own hown hfree => ?_)
      fun e he => ?_
    · cases discord' with
      | none => rw [hown, hs.name, hkept, hsame rfl]
      | some e => exact absurd ((hdiscord' e rfl).1.trans (hs.name.symm.trans hown.symm)) (hfree e rfl)
    · obtain ⟨hown, hhere, hthere⟩ := hdiscord' e he
      exact ⟨hown.trans hs.name.symm, hhere, by rw [hown, hthere, hkept]⟩
  exact ⟨i, discord', hthen.statements hpost hmention, fun e he => (hdiscord' e he).1⟩

/-- And they are bound in step with those of their own order, where the function stands before them. -/
theorem exists_alongside_stayed (hb : b.Orderly) (hcurrent : b.current = root)
    (hs : FunctionSymbols b b' pre d d' early placed front)
    (hpost : List.Forall₂ Node.Moved post post') (hclass : d.Throughout (·.classBody? = none))
    (h : (statements pre b).tree.AgreeBut early.name (statement d (statements pre b)).tree) :
    ∃ i, Alongside i none (statements post (given b pre placed))
      (statements post (statement d (statements pre b))) := by
  have hpre := stable_statements stable_orderly pre (allThroughout_true pre) hb
  have hpreCurrent := (keeps_statements pre b hb.valid).current.trans hcurrent
  have hrelabels := Relabels.define (statements pre b) root placed
  have hroot : root < (statements pre b).tree.size := Nat.zero_lt_of_lt hpre.valid
  obtain ⟨i, hthere⟩ : ∃ i, Alongside i none (given b pre placed) (statement d (statements pre b)) := by
    refine exists_alongside hpre hpreCurrent hclass
      (hpre.relabels hrelabels (hpre.keyed.define _ _)) hpreCurrent rfl hrelabels.frame
      hrelabels.size (fun id hid own => ?_) (fun own _ => ?_) (by simp)
    · rw [given, symbol?_define, if_neg fun hall => hid hall.1.symm]
    · rw [given, symbol?_define]
      split
      · rename_i hall
        rw [← hall.2.2, hs.name, hs.bound]
      · rename_i hnot
        exact h own fun heq => hnot ⟨rfl, hroot, hs.name.trans heq.symm⟩
  exact ⟨i, hthere.statements (forall₂_moved_left hpost) (by simp)⟩

/-- **A function that moves freely may be moved to the front** of the statements: the same is recorded
for every other name of the global scope. -/
theorem agreeBut_statements (tracksAssignments : Bool) (hpre : List.Forall₂ Node.Moved pre pre') (hd : d.Moved d')
    (hpost : List.Forall₂ Node.Moved post post') (hfunction : d.DeclaresFunction name)
    (honce : AllThroughout (name ∉ ·.declares) pre) (hclass : d.Throughout (·.classBody? = none))
    (h : MovesFreely name (startOf tracksAssignments (pre ++ d :: post))
      (startOf tracksAssignments (d' :: (pre' ++ post')))
      pre d d' post) :
    (statements (pre ++ d :: post) (startOf tracksAssignments (pre ++ d :: post))).tree.AgreeBut name
      (statements (d' :: (pre' ++ post')) (startOf tracksAssignments (d' :: (pre' ++ post')))).tree := by
  have hb := started_startOf tracksAssignments (pre ++ d :: post)
  have hb' := started_startOf tracksAssignments (d' :: (pre' ++ post'))
  have hfunction' := hd.declaresFunction hfunction
  have hclass' := (hd.throughout fun place kind => NodeKind.classBody?_relocate kind).2 hclass
  obtain ⟨early, placed, front, rfl, hs⟩ := exists_functionSymbols hb.orderly hb'.orderly hb.current hb'.current
    (hasFunction_hoist rfl Nat.zero_lt_one hfunction (.inr (by simp)))
    (hasFunction_hoist rfl Nat.zero_lt_one hfunction' (.inr (by simp))) hfunction hfunction' honce
  obtain ⟨i, discord, hmoved, hdiscord⟩ := exists_alongside_moved hb hb' hs hpre hpost honce hclass' h
  obtain ⟨j, hstayed⟩ := exists_alongside_stayed hb.orderly hb.current hs hpost hclass h.behind
  intro other hother
  have hmovedSymbol := hmoved.trees.symbol root other fun _ e he heq => hother (heq.symm.trans (hdiscord e he))
  have hstayedSymbol := hstayed.trees.symbol root other (by simp)
  rw [Insertion.shift_root] at hmovedSymbol hstayedSymbol
  rw [statements, statements_append, statements_append, statements, hmovedSymbol, hstayedSymbol]

end

end Binder

open Binder ScopeTree

/-- **A declaration of a function that moves freely may be moved to the front of a script**: what is
recorded for every other name of the global scope is the same. -/
theorem function_moved_to_front (options : BindOptions) {text moved : List Char} {range range' : TextRange}
    {pre pre' post post' : List Node} {d d' : Node} {name : String}
    (htext : parseProgram text = .ok ⟨range, .program (pre ++ d :: post)⟩)
    (hmoved : parseProgram moved = .ok ⟨range', .program (d' :: (pre' ++ post'))⟩)
    (hpre : List.Forall₂ Node.Moved pre pre') (hd : d.Moved d') (hpost : List.Forall₂ Node.Moved post post')
    (hfunction : d.DeclaresFunction name) (honce : AllThroughout (name ∉ ·.declares) pre)
    (hclass : d.Throughout (·.classBody? = none))
    (hfree : MovesFreely name (startOf options.tracksAssignments (pre ++ d :: post))
      (startOf options.tracksAssignments (d' :: (pre' ++ post'))) pre d d' post) :
    (bindText options text).tree.AgreeBut name (bindText options moved).tree := by
  intro other hother
  rw [tree_bindText options htext, tree_bindText options hmoved, symbol?_close, symbol?_close]
  exact agreeBut_statements options.tracksAssignments hpre hd hpost hfunction honce hclass hfree other hother

/-- A variable takes the result of a function that stands behind it, or before it. -/
theorem function_moved_to_front_called :
    let text := "let r=d();function d(){return[]}".toList
    let moved := "function d(){return[]}let r=d();".toList
    let r : Node := ⟨⟨0, 10⟩, .variableDeclaration .letKind [⟨⟨4, 9⟩, .variableDeclarator ⟨⟨4, 5⟩, .identifier "r"⟩
      (some ⟨⟨6, 9⟩, .call ⟨⟨6, 7⟩, .identifier "d"⟩ [] false⟩)⟩]⟩
    let d : Node := ⟨⟨10, 32⟩, .functionDeclaration ⟨some "d", [], ⟨⟨22, 32⟩, .block [⟨⟨23, 31⟩, .return
      (some ⟨⟨29, 31⟩, .arrayLiteral []⟩)⟩]⟩, false⟩⟩
    let d' : Node := ⟨⟨0, 22⟩, .functionDeclaration ⟨some "d", [], ⟨⟨12, 22⟩, .block [⟨⟨13, 21⟩, .return
      (some ⟨⟨19, 21⟩, .arrayLiteral []⟩)⟩]⟩, false⟩⟩
    let r' : Node := r.relocate (· + 22)
    (parseProgram text = .ok ⟨⟨0, 32⟩, .program [r, d]⟩ ∧ parseProgram moved = .ok ⟨⟨0, 32⟩, .program [d', r']⟩ ∧
      r.Moved r' ∧ d.Moved d' ∧ d.DeclaresFunction "d" ∧ AllThroughout ("d" ∉ ·.declares) [r] ∧
      d.Throughout (·.classBody? = none) ∧
      MovesFreely "d" (startOf true [r, d]) (startOf true [d', r']) [r] d d' []) ∧
    (bindText {} text).tree.AgreeBut "d" (bindText {} moved).tree := by
  intro text moved r d d' r'
  have htext : parseProgram text = .ok ⟨⟨0, 32⟩, .program [r, d]⟩ := parseProgram_of_same (by decide +kernel)
  have hmoved : parseProgram moved = .ok ⟨⟨0, 32⟩, .program [d', r']⟩ := parseProgram_of_same (by decide +kernel)
  have hr : r.Moved r' := ⟨r, id, (· + 22), strictMono_id, fun _ _ h => Nat.add_lt_add_right h 22, rfl, rfl⟩
  have hd : d.Moved d' := ⟨d', (· + 10), id, fun _ _ h => Nat.add_lt_add_right h 10, strictMono_id, rfl, rfl⟩
  have hfunction : d.DeclaresFunction "d" :=
    ⟨⟨_, rfl, rfl⟩, by decide, by
      simp [d, allThroughout_cons, allThroughout_nil, throughout_iff, Node.kind, NodeKind.children,
        NodeKind.declares]⟩
  have honce : AllThroughout ("d" ∉ ·.declares) [r] := by
    simp [r, allThroughout_cons, allThroughout_nil, throughout_iff, NodeKind.children, NodeKind.declares,
      Node.identifier?, Node.boundNames, nameOf]
  have hclass : d.Throughout (·.classBody? = none) := by
    simp [d, allThroughout_cons, allThroughout_nil, throughout_iff, NodeKind.children, NodeKind.classBody?]
  have hfree : MovesFreely "d" (startOf true [r, d]) (startOf true [d', r']) [r] d d' [] :=
    { hoisted := .of_symbols (by cbv)
      behind := .of_symbols (by cbv)
      front := .of_symbols (by cbv)
      before := .inl (by cbv)
      after := .inl (by cbv) }
  exact ⟨⟨htext, hmoved, hr, hd, hfunction, honce, hclass, hfree⟩,
    function_moved_to_front {} htext hmoved (.cons hr .nil) hd .nil hfunction honce hclass hfree⟩

/-- **Where a function stands may matter to others.** The result of a function is known where it is bound,
and not where a variable before it takes it; what else may be known earlier or later is what another
function returns, a variable that the function gives a value, one whose value it returns, and a class in it. -/
theorem types_of_moved_function :
    let text := "let r=d();function d(){let x=[];return x}".toList
    let moved := "function d(){let x=[];return x}let r=d();".toList
    let r : Node := ⟨⟨0, 10⟩, .variableDeclaration .letKind [⟨⟨4, 9⟩, .variableDeclarator ⟨⟨4, 5⟩, .identifier "r"⟩
      (some ⟨⟨6, 9⟩, .call ⟨⟨6, 7⟩, .identifier "d"⟩ [] false⟩)⟩]⟩
    let d' : Node := ⟨⟨0, 31⟩, .functionDeclaration ⟨some "d", [], ⟨⟨12, 31⟩, .block
      [⟨⟨13, 22⟩, .variableDeclaration .letKind [⟨⟨17, 21⟩, .variableDeclarator ⟨⟨17, 18⟩, .identifier "x"⟩
        (some ⟨⟨19, 21⟩, .arrayLiteral []⟩)⟩]⟩, ⟨⟨22, 30⟩, .return (some ⟨⟨29, 30⟩, .identifier "x"⟩)⟩]⟩, false⟩⟩
    let d : Node := d'.relocate (· + 10)
    let r' : Node := r.relocate (· + 31)
    (parseProgram text = .ok ⟨⟨0, 41⟩, .program [r, d]⟩ ∧ parseProgram moved = .ok ⟨⟨0, 41⟩, .program [d', r']⟩ ∧
      r.Moved r' ∧ d.Moved d' ∧ d.DeclaresFunction "d" ∧ AllThroughout ("d" ∉ ·.declares) [r] ∧
      ((bindText {} text).tree.symbol? root "r").map (·.type) ≠
        ((bindText {} moved).tree.symbol? root "r").map (·.type)) ∧
    let known (text name : String) : Option Bool :=
      ((bindText {} text.toList).tree.symbol? root name).map fun symbol => !symbol.typeOrUnknown.isUnknown
    ∀ place ∈ [
        ("let r=a();function a(){return d()}function d(){return 1}",
          "function d(){return 1}let r=a();function a(){return d()}", "r"),
        ("let x;function d(){x=1}", "function d(){x=1}let x;", "x"),
        ("let k=1;function d(){return k}let r=d();", "function d(){return k}let k=1;let r=d();", "r"),
        ("class A extends B{}let r=new A().p;function d(){class B{p=1}}",
          "function d(){class B{p=1}}class A extends B{}let r=new A().p;", "r")],
      known place.1 place.2.2 ≠ known place.2.1 place.2.2 := by
  intro text moved r d' d r'
  have htext : parseProgram text = .ok ⟨⟨0, 41⟩, .program [r, d]⟩ := parseProgram_of_same (by decide +kernel)
  have hmoved : parseProgram moved = .ok ⟨⟨0, 41⟩, .program [d', r']⟩ := parseProgram_of_same (by decide +kernel)
  have hr : r.Moved r' := ⟨r, id, (· + 31), strictMono_id, fun _ _ h => Nat.add_lt_add_right h 31, rfl, rfl⟩
  have hd : d.Moved d' := ⟨d', (· + 10), id, fun _ _ h => Nat.add_lt_add_right h 10, strictMono_id, rfl, rfl⟩
  have hfunction : d'.DeclaresFunction "d" :=
    ⟨⟨_, rfl, rfl⟩, by decide, by
      simp [d', allThroughout_cons, allThroughout_nil, throughout_iff, Node.kind, NodeKind.children,
        NodeKind.declares, Node.identifier?, Node.boundNames, nameOf]⟩
  have honce : AllThroughout ("d" ∉ ·.declares) [r] := by
    simp [r, allThroughout_cons, allThroughout_nil, throughout_iff, NodeKind.children, NodeKind.declares,
      Node.identifier?, Node.boundNames, nameOf]
  have htypes : ((bindText {} text).tree.symbol? root "r").map (·.type) ≠
      ((bindText {} moved).tree.symbol? root "r").map (·.type) := by
    intro heq
    have hknown := congrArg (·.map fun type => (type.getD .unknown).isUnknown) heq
    exact absurd hknown (by decide +kernel)
  have hdback : d'.Moved d := ⟨d', id, (· + 10), strictMono_id, fun _ _ h => Nat.add_lt_add_right h 10, rfl, rfl⟩
  exact ⟨⟨htext, hmoved, hr, hd, hdback.declaresFunction hfunction, honce, htypes⟩, by decide +kernel⟩

end Typeahead
