/-
# `this` in a method

In the body of a method, outside of the functions and classes in it, `this` is the class of the
method, seen from the side of the method. The class may stand in blocks, branches and loops, in
functions and in methods of other classes.

A walk comes to the method if the search for the offset, which starts at the scope that is open then,
goes down to the scope of the method; what is walked over later starts behind the offset.

Key definitions: `NodeKind.inner`, `Node.Encloses`, `Binder.Comes`.
Key theorems: `Binder.Comes.scope`, `comes_inner`, `thisType_in_method`.
-/
import Typeahead.Proofs.Scope.Descent
import Typeahead.Proofs.Scope.Room

namespace Typeahead

open Text Binder ScopeTree

/-! ### Statements in statements -/

namespace Node

/-- The statements that a body consists of. -/
def listed : Node → List Node
  | ⟨_, .block body⟩ => body
  | n => [n]

/-- The statements of a case of a switch. -/
def caseStatements : Node → List Node
  | ⟨_, .switchCase _ consequent⟩ => consequent
  | _ => []

/-- The statements of a `catch` clause. -/
def catchStatements : Node → List Node
  | ⟨_, .catchClause _ ⟨_, .block body⟩⟩ => body
  | _ => []

/-- The statements of a class element with a body. -/
def methodStatements : Node → List Node
  | ⟨_, .methodMember _ _ _ ⟨_, .functionExpression parts⟩⟩ => parts.body.listed
  | _ => []

end Node

/-- The statements directly in a statement: those of its blocks, branches and bodies, of the function
that it declares, and of the methods of the class that it declares. -/
def NodeKind.inner : NodeKind → List Node
  | .block body => body
  | .if _ consequent alternate => consequent :: alternate.toList
  | .while _ body | .doWhile body _ | .for _ _ _ body | .forInOf _ _ body _ => [body]
  | .switch _ cases => cases.flatMap Node.caseStatements
  | .try tried handler finalizer => tried :: (handler.toList.flatMap Node.catchStatements ++ finalizer.toList)
  | .functionDeclaration parts => parts.body.listed
  | .classDeclaration parts => parts.members.flatMap Node.methodStatements
  | _ => []

/-- The statement `m` is `n` or stands in it, and between them there are statements only. -/
inductive Node.Encloses : Node → Node → Prop where
  | self (n : Node) : Encloses n n
  | inside {n c m : Node} : c ∈ n.kind.inner → Encloses c m → Encloses n m

/-- What passes from a node to its pieces, be it only where all of them are counted. -/
def Inherited (P : Node → Prop) : Prop :=
  ∀ {range : TextRange} {kind : NodeKind} {m : Node}, P ⟨range, kind⟩ → kind.counted = kind.children →
    m ∈ kind.pieces → P m

section

variable {offset lo hi most : Nat} {n c m : Node} {range : TextRange} {kind : NodeKind} {P : Node → Prop}

theorem Inherited.listed (hP : Inherited P) {body : Node} (h : P body) (hc : c ∈ body.listed) : P c := by
  obtain ⟨bodyRange, bodyKind⟩ := body
  cases bodyKind with
  | block body => exact hP h rfl hc
  | _ => exact List.mem_singleton.1 hc ▸ h

theorem Inherited.held (hP : Inherited P) (h : P n)
    (hc : c ∈ n.caseStatements ∨ c ∈ n.catchStatements ∨ c ∈ n.methodStatements) : P c := by
  obtain ⟨range, kind⟩ := n
  cases kind with
  | switchCase test consequent =>
    rcases hc with hc | hc | hc
    · exact hP h rfl (List.mem_append_right _ hc)
    · cases hc
    · cases hc
  | catchClause param body =>
    obtain ⟨bodyRange, bodyKind⟩ := body
    cases bodyKind with
    | block body =>
      rcases hc with hc | hc | hc
      · cases hc
      · exact hP (hP h rfl List.mem_cons_self) rfl hc
      · cases hc
    | _ => rcases hc with hc | hc | hc <;> cases hc
  | methodMember key kind isStatic value =>
    obtain ⟨valueRange, valueKind⟩ := value
    cases valueKind with
    | functionExpression parts =>
      rcases hc with hc | hc | hc
      · cases hc
      · cases hc
      · exact hP.listed (hP (hP h rfl List.mem_cons_self) rfl (List.mem_append_right _ List.mem_cons_self)) hc
    | _ => rcases hc with hc | hc | hc <;> cases hc
  | _ => rcases hc with hc | hc | hc <;> cases hc

theorem Inherited.inner (hP : Inherited P) (h : P ⟨range, kind⟩) (hc : c ∈ kind.inner) : P c := by
  cases kind with
  | block body => exact hP h rfl hc
  | «if» test consequent alternate => exact hP h rfl (List.mem_cons_of_mem _ hc)
  | «while» test body => exact hP h rfl (List.mem_cons_of_mem _ hc)
  | doWhile body test => exact hP h rfl (List.mem_singleton.1 hc ▸ List.mem_cons_self)
  | «for» init test update body => exact hP h rfl (List.mem_append_right _ hc)
  | forInOf left right body isOf => exact hP h rfl (List.mem_cons_of_mem _ (List.mem_cons_of_mem _ hc))
  | switch discriminant branches =>
    obtain ⟨branch, hbranch, hc⟩ := List.mem_flatMap.1 hc
    exact hP.held (hP h rfl (List.mem_cons_of_mem _ hbranch)) (.inl hc)
  | «try» block handler finalizer =>
    rcases List.mem_cons.1 hc with rfl | hc
    · exact hP h rfl List.mem_cons_self
    · rcases List.mem_append.1 hc with hc | hc
      · obtain ⟨clause, hclause, hc⟩ := List.mem_flatMap.1 hc
        exact hP.held (hP h rfl (List.mem_cons_of_mem _ (List.mem_append_left _ hclause))) (.inr (.inl hc))
      · exact hP h rfl (List.mem_cons_of_mem _ (List.mem_append_right _ hc))
  | functionDeclaration parts => exact hP.listed (hP h rfl (List.mem_append_right _ List.mem_cons_self)) hc
  | classDeclaration parts =>
    obtain ⟨element, helement, hc⟩ := List.mem_flatMap.1 hc
    exact hP.held (hP h rfl (List.mem_append_right _ helement)) (.inr (.inr hc))
  | _ => cases hc

theorem inherited_room : Inherited (Node.Room offset lo hi) := fun h _ hm => h.inner _ hm

theorem inherited_scopesWithin : Inherited (Node.ScopesWithin most) := fun h hcounted hm =>
  h.of_mem (hcounted ▸ mem_children_of_mem_pieces hm)

/-- A node lies between its own start and its own stop. -/
theorem Node.Room.tighten (h : n.Room offset lo hi) : n.Room offset n.start n.stop :=
  { h with
    starts := Nat.le_refl _
    stops := Nat.le_refl _ }

theorem Node.Room.around (h : c.Room lo n.start n.stop) (hc : c.Around offset) : n.Around offset :=
  ⟨Nat.le_trans h.starts hc.1, Nat.lt_of_lt_of_le hc.2 h.stops⟩

/-- What stands behind a node that is around an offset starts later. -/
theorem Node.Room.later {after : Nat} (h : m.Room after lo hi) (hn : n.EndsWithin m.start) (ha : n.Around offset) :
    m.Room after (offset + 1) hi :=
  { h with starts := Nat.le_trans ha.2 hn.stop_le }

end

namespace Binder

variable {b b' c : Binder} {offset lo hi most last : Nat} {good : Ty → Prop} {pre : Scope → Prop}

/-! ### Walks that come to a method -/

/-- On the way from one state to another a scope was opened in which `this` is as it should be, and
the search for an offset comes to it from the scope that is open; what was opened later and has a
`this` of its own is not around the offset. -/
def Arrives (offset : Nat) (good : Ty → Prop) (b b' : Binder) : Prop :=
  ∃ f, b.tree.size ≤ f ∧ b'.tree.Leads offset b.current f ∧ b'.tree.HasThis good f ∧
    ∀ id s, f < id → b'.tree.frame? id = some s → s.contains offset = true → s.kind.bindsThis = false

/-- Wherever a scope is open that is as it is required, the walk from one state to another opens
scopes in it and comes to the method. -/
def Comes (offset : Nat) (good : Ty → Prop) (pre : Scope → Prop) (b b' : Binder) : Prop :=
  ∀ above, b.tree.frame? b.current = some above → pre above → b.Widens above b' ∧ b.Arrives offset good b'

/-- What is required of a scope stays so while others are opened in it, and lets it start at an offset
at the latest. -/
structure Stable (lo : Nat) (pre : Scope → Prop) : Prop where
  widen : ∀ s new, pre s → pre { s with children := s.children ++ new }
  starts : ∀ s, pre s → s.start ≤ lo

/-- The scope starts no later than at an offset. -/
def StartsBy (lo : Nat) (s : Scope) : Prop := s.start ≤ lo

theorem stable_startsBy (lo : Nat) : Stable lo (StartsBy lo) := ⟨fun _ _ h => h, fun _ h => h⟩

namespace Comes

theorem weaken {pre' : Scope → Prop} (h : b.Comes offset good pre' b') (hpre : ∀ s, pre s → pre' s) :
    b.Comes offset good pre b' :=
  fun above hb hp => h above hb (hpre _ hp)

/-- What is walked over before may be anything. -/
theorem after (hpre : Stable lo pre) (h : b.Fills last lo hi most b') (h' : b'.Comes offset good pre c) :
    b.Comes offset good pre c := by
  intro above hb hp
  have hfirst := h above hb (hpre.starts _ hp)
  obtain ⟨new, hnew⟩ := hfirst.frame
  obtain ⟨hwidens, f, hf, hleads, hrest⟩ := h' _ hnew (hpre.widen _ _ hp)
  exact ⟨hfirst.toWidens.trans hnew hwidens, f, Nat.le_trans hfirst.size hf, hfirst.current ▸ hleads, hrest⟩

theorem after_relabels (hpre : Stable lo pre) (h : b.Relabels b') (h' : b'.Comes offset good pre c) :
    b.Comes offset good pre c := after hpre (.relabels h : b.Fills 0 lo 0 0 b') h'

/-- What is walked over later starts behind the offset. -/
theorem before (hpre : ∀ s, pre s → s.start ≤ offset) (h : b.Comes offset good pre b')
    (h' : b'.Fills last (offset + 1) hi most c) : b.Comes offset good pre c := by
  intro above hb hp
  have hlt := lt_size_of_frame? hb
  obtain ⟨hwidens, f, hf, hleads, hthis, hclear⟩ := h above hb hp
  obtain ⟨new, hnew⟩ := hwidens.frame
  have hnext := h' _ hnew (Nat.le_succ_of_le (hpre above hp))
  obtain ⟨newer, hown, hlater⟩ := hnext.own
  rw [hwidens.current] at hnew hown
  have hothers : ∀ id < b'.tree.size, id ≠ b.current → c.tree.frame? id = b'.tree.frame? id := by
    intro id hid hne
    exact hnext.others id hid (hwidens.current.symm ▸ hne)
  -- a scope that was opened later does not contain the offset
  have hout : ∀ id s, b'.tree.size ≤ id → c.tree.frame? id = some s → s.contains offset = false := by
    intro id s hid hs
    have := (hnext.added id s hid hs).starts
    simp only [Scope.contains, Bool.and_eq_false_iff, decide_eq_false_iff_not]
    omega
  have hsize : ∀ {id s}, b'.tree.frame? id = some s → id < b'.tree.size := lt_size_of_frame?
  refine ⟨hwidens.trans (hwidens.current.symm ▸ hnew) hnext.toWidens, f, hf, ?_, ?_, fun id s hid hs hcontains => ?_⟩
  · refine hleads.mono hnext.size (fun d hd hin => ?_) fun d s hd hs => ?_
    · rw [covers_eq, hothers d hin (Nat.ne_of_gt hd), covers_eq]
    · rcases Nat.eq_or_lt_of_le hd with rfl | hd
      · cases hnew.symm.trans hs
        refine ⟨_, newer, hown, rfl, fun e he => ⟨Nat.lt_of_lt_of_le (hsize hs) (hlater e he).1, (hlater e he).2, ?_⟩⟩
        obtain ⟨t, ht⟩ := exists_frame?_of_lt (hlater e he).2
        rw [covers_of_frame? ht]
        exact hout e t (hlater e he).1 ht
      · exact ⟨s, [], (hothers d (hsize hs) (Nat.ne_of_gt hd)).trans hs, (List.append_nil _).symm, by simp⟩
  · refine hthis.mono fun d s hs => ?_
    by_cases hd : d = b.current
    · subst hd
      cases hnew.symm.trans hs
      exact ⟨_, hown, rfl, rfl, rfl, rfl⟩
    · exact ⟨s, (hothers d (hsize hs) hd).trans hs, rfl, rfl, rfl, rfl⟩
  · rcases Nat.lt_or_ge id b'.tree.size with hin | hge
    · have hne : id ≠ b.current := Nat.ne_of_gt (Nat.lt_of_lt_of_le hlt (Nat.le_trans hf (Nat.le_of_lt hid)))
      exact hclear id s hid ((hothers id hin hne).symm.trans hs) hcontains
    · rw [hout id s hge hs] at hcontains
      cases hcontains

/-- **A walk in a scope of its own** comes to the method by way of the scope. -/
theorem scope (pre' : Scope → Prop) {kind : ScopeKind} {start stop : Nat} (hc : (b.enter kind start).Furnishes c)
    (h : c.Comes offset good pre' b') (hlo : ∀ s, pre s → s.start ≤ start) (hstart : start ≤ offset)
    (hown : ∀ above own, b.Entered kind start above own c → pre' own) :
    b.Comes offset good pre (b'.leave stop) := by
  intro above hb hp
  have hlt := lt_size_of_frame? hb
  obtain ⟨own, he⟩ := hc.entered hb (hlo _ hp)
  have hownstart : own.start = start := congrArg Outline.start he.outline_eq
  obtain ⟨hwidens, f, hf, hleads, hthis, hclear⟩ := h own he.frame (hown above own he)
  obtain ⟨-, hsize, -, hparent, new, hnew, -, hframe⟩ := Widens.left stop he hwidens hlt
  rw [he.current] at hleads
  have hfgt : b.tree.size < f := Nat.lt_of_lt_of_le (by rw [he.size]; exact Nat.lt_succ_self _) hf
  have hsame : ∀ id, id ≠ b.tree.size → (b'.leave stop).tree.frame? id = b'.tree.frame? id := by
    intro id hne
    rw [hframe, if_neg hne]
  have hself := hframe b.tree.size
  rw [if_pos rfl] at hself
  -- the scope reaches past the offset, as a child does on the way to the method
  have hstop : offset < max (max stop own.start) (b'.tree.lastStop new) := by
    cases hleads with
    | self => exact absurd hfgt (Nat.lt_irrefl _)
    | @down _ child _ s front back hs hchildren _ hcovers =>
      cases hnew.symm.trans hs
      obtain ⟨t, ht⟩ : ∃ t, b'.tree.frame? child = some t := by
        rw [covers_eq] at hcovers
        cases htree : b'.tree.frame? child with
        | none => simp [htree] at hcovers
        | some t => exact ⟨t, rfl⟩
      rw [covers_of_frame? ht, Scope.contains, Bool.and_eq_true, decide_eq_true_eq, decide_eq_true_eq] at hcovers
      have hmem : child ∈ new := by
        rw [show new = front ++ child :: back from hchildren]
        simp
      have hle : t.stop ≤ b'.tree.lastStop new := stop_le_lastStop hmem (outline?_of_frame? ht)
      omega
  refine ⟨Widens.scope stop he hwidens hlt, f, Nat.le_of_lt hfgt, ?_, ?_, fun id s hid hs => ?_⟩
  · refine .down above.children [] hparent rfl hlt ?_ (by simp)
      (hleads.mono (Nat.le_of_eq hsize.symm) (fun d hd _ => ?_) fun d s hd hs => ?_)
    · rw [covers_of_frame? hself, Scope.contains, Bool.and_eq_true, decide_eq_true_eq, decide_eq_true_eq]
      exact ⟨Nat.le_trans (Nat.le_of_eq hownstart) hstart, hstop⟩
    · rw [covers_eq, hsame d (Nat.ne_of_gt hd), covers_eq]
    · rcases Nat.eq_or_lt_of_le hd with rfl | hd
      · cases hnew.symm.trans hs
        exact ⟨_, [], hself, (List.append_nil _).symm, by simp⟩
      · exact ⟨s, [], (hsame d (Nat.ne_of_gt hd)).trans hs, (List.append_nil _).symm, by simp⟩
  · refine hthis.mono fun d s hs => ?_
    by_cases hd : d = b.tree.size
    · subst hd
      cases hnew.symm.trans hs
      exact ⟨_, hself, rfl, rfl, rfl, rfl⟩
    · exact ⟨s, (hsame d hd).trans hs, rfl, rfl, rfl, rfl⟩
  · exact hclear id s hid ((hsame id (Nat.ne_of_gt (Nat.lt_trans hfgt hid))).symm.trans hs)

/-- A scope in which statements are bound. -/
theorem scope_plain {kind : ScopeKind} {start stop : Nat} (hc : (b.enter kind start).Furnishes c)
    (h : c.Comes offset good (StartsBy start) b') (hstart : start ≤ offset) :
    b.Comes offset good (StartsBy start) (b'.leave stop) :=
  scope _ hc h (fun _ hs => hs) hstart fun _ _ he => Nat.le_of_eq (congrArg Outline.start he.outline_eq)

/-- A walk over nodes of which one holds the method. -/
theorem list {walk : List Node → Binder → Binder} {l : List Node} {n : Node} (hpre : Stable lo pre)
    (hlo : lo ≤ offset)
    (hsplit : ∀ l l' b, walk (l ++ l') b = walk l' (walk l b))
    (hfills : ∀ {lo : Nat} (l : List Node) (b : Binder), AllRoom last lo hi l → AllScopesWithin most l →
      b.Fills last lo hi most (walk l b))
    (hr : AllRoom last lo hi l) (hs : AllScopesWithin most l) (ho : l.Pairwise fun a b => a.EndsWithin b.start)
    (hn : n ∈ l) (ha : n.Around offset) (h : ∀ b : Binder, b.Comes offset good pre (walk [n] b)) (b : Binder) :
    b.Comes offset good pre (walk l b) := by
  obtain ⟨front, back, rfl⟩ := List.append_of_mem hn
  have hback := (List.pairwise_cons.1 (List.pairwise_append.1 ho).2.1).1
  rw [hsplit, ← List.singleton_append, hsplit]
  refine .after hpre (hfills front b hr.left hs.left) (.before (fun s hp => Nat.le_trans (hpre.starts s hp) hlo)
    (h _) (hfills back _ (fun m hm => ?_) hs.right.tail))
  exact (hr.right.tail m hm).later (hback m hm) ha

end Comes

/-! ### Lists that are walked over -/

theorem cases_cons (n : Node) (l : List Node) (b : Binder) :
    Binder.cases (n :: l) b = Binder.cases l (Binder.cases [n] b) := by
  obtain ⟨_, kind⟩ := n
  cases kind <;> rfl

theorem cases_append :
    ∀ (l l' : List Node) (b : Binder), Binder.cases (l ++ l') b = Binder.cases l' (Binder.cases l b)
  | [], _, _ => rfl
  | n :: l, l', b => by rw [List.cons_append, cases_cons, cases_append l l', ← cases_cons]

theorem classElements_cons (n : Node) (l : List Node) (b : Binder) :
    classElements (n :: l) b = classElements l (classElements [n] b) := by
  obtain ⟨_, kind⟩ := n
  cases kind with
  | methodMember key kind isStatic value =>
    obtain ⟨_, valueKind⟩ := value
    cases valueKind <;> rfl
  | _ => rfl

theorem classElements_append : ∀ (l l' : List Node) (b : Binder),
    classElements (l ++ l') b = classElements l' (classElements l b)
  | [], _, _ => rfl
  | n :: l, l', b => by rw [List.cons_append, classElements_cons, classElements_append l l', ← classElements_cons]

end Binder

/-! ### From a statement to the one around it -/

section

variable {offset last lo hi most : Nat} {good : Ty → Prop} {range : TextRange} {kind : NodeKind} {n : Node}

/-- The walk over a statement comes to the method, wherever it starts. -/
def Node.Comes (offset : Nat) (good : Ty → Prop) (n : Node) : Prop :=
  ∀ b, Binder.Comes offset good (StartsBy n.start) b (statement n b)

theorem comes_statements {l : List Node} (hr : AllRoom last lo hi l) (hs : AllScopesWithin most l)
    (ho : l.Pairwise fun a b => a.EndsWithin b.start) (hn : n ∈ l) (ha : n.Around offset) (hlo : lo ≤ offset)
    (h : n.Comes offset good) (b : Binder) : b.Comes offset good (StartsBy lo) (statements l b) :=
  .list (stable_startsBy lo) hlo statements_append (fun l b => fills_statements l b) hr hs ho hn ha
    (fun b => (h b).weaken fun _ hp => Nat.le_trans hp (hr n hn).starts) b

/-- The statements of a block whose functions are declared first. -/
theorem comes_hoisted {body : List Node} (hr : Node.Room last lo hi ⟨range, .block body⟩)
    (hs : Node.ScopesWithin most ⟨range, .block body⟩) (hn : n ∈ body) (ha : n.Around offset)
    (h : n.Comes offset good) (b : Binder) : b.Comes offset good (StartsBy lo) (statements body (b.hoist body)) :=
  .after_relabels (stable_startsBy lo) (.hoist b body)
    (comes_statements hr.inner hs.counted hr.placed.inOrder.apart hn ha
      (Nat.le_trans hr.starts (Nat.le_trans (hr.pieces n hn).starts ha.1)) h _)

theorem comes_functionBody {parts : FunctionParts Node} (hr : AllRoom last lo hi (parts.params ++ [parts.body]))
    (hs : AllScopesWithin most (parts.params ++ [parts.body])) (hn : n ∈ parts.body.listed) (ha : n.Around offset)
    (h : n.Comes offset good) (b : Binder) : b.Comes offset good (StartsBy lo) (functionBody parts b) := by
  obtain ⟨name, params, ⟨bodyRange, bodyKind⟩, isAsync⟩ := parts
  have hparams := fills_parameters params b hr.left hs.left
  cases bodyKind with
  | block body => exact .after (stable_startsBy lo) hparams (comes_hoisted hr.right.head hs.right.head hn ha h _)
  | _ =>
    obtain rfl := List.mem_singleton.1 hn
    exact .after (stable_startsBy lo) hparams ((h _).weaken fun _ hp => Nat.le_trans hp hr.right.head.starts)

theorem comes_function {parts : FunctionParts Node} {start : Nat} (symbol : Option Symbol) (isStatic : Bool)
    (hr : AllRoom last start hi (parts.params ++ [parts.body]))
    (hs : AllScopesWithin most (parts.params ++ [parts.body]))
    (hn : n ∈ parts.body.listed) (ha : n.Around offset) (h : n.Comes offset good) (b : Binder) :
    b.Comes offset good (StartsBy start) (function parts start symbol isStatic b) := by
  rw [function_eq]
  exact .scope_plain (.setFunction _ symbol isStatic) (comes_functionBody hr hs hn ha h _)
    (Nat.le_trans (inherited_room.listed hr.right.head hn).starts ha.1)

/-- The walk over a class comes to the method if the walk over one of its elements does. -/
theorem comes_classBody {parts : ClassParts Node} {symbol : Symbol} {pre : Scope → Prop} {element : Node}
    (hr : Node.Room last lo hi ⟨range, .classDeclaration parts⟩)
    (hs : Node.ScopesWithin most ⟨range, .classDeclaration parts⟩)
    (helement : element ∈ parts.members) (ha : element.Around offset)
    (hpre : Stable parts.bodyRange.start pre)
    (hown : ∀ s : Scope, s.kind = .classBody → s.start = parts.bodyRange.start → s.classSymbol = some symbol → pre s)
    (h : ∀ b, Binder.Comes offset good pre b (classElements [element] b)) (b : Binder) :
    b.Comes offset good (StartsBy range.start) (classBody parts symbol b) := by
  obtain ⟨name, superclass, members, bodyRange⟩ := parts
  obtain ⟨hstart, -, -, hbehind⟩ := hr.placed.braced
  obtain ⟨k, rfl, hscoped⟩ := hs.of_scope rfl
  have hp : AllRoom last range.start range.stop (superclass.toList ++ members) := hr.pieces
  have hmembers : AllRoom last bodyRange.start range.stop members :=
    fun m hm => { hp.right m hm with starts := hbehind m hm }
  have horder : members.Pairwise fun a b => a.EndsWithin b.start :=
    (List.pairwise_append.1 hr.placed.inOrder.apart).2.1
  have hbody : bodyRange.start ≤ offset := Nat.le_trans (hmembers element helement).starts ha.1
  rw [classBody]
  refine .after (stable_startsBy _)
    (fills_optional superclass b hp.left fun n hn => hs.of_superclass (Option.mem_toList.1 hn))
    (.scope pre (.trans (.of_relabels (.declareMembers _ symbol)) (.setClass _ symbol))
      (.list hpre hbody classElements_append
        (fun l b => fills_classElements l b) hmembers hscoped horder helement ha h _)
      (fun s hs => Nat.le_trans hs hstart) hbody fun above own he => ?_)
  exact hown own he.kind_eq (congrArg Outline.start he.outline_eq) (Furnishes.classSymbol_setClass he.frame)

/-- The walk over a case of a switch comes to the method if that over one of its statements does. -/
theorem comes_case {branch : Node} (hr : branch.Room last lo hi) (hs : branch.ScopesWithin most)
    (hn : n ∈ branch.caseStatements) (ha : n.Around offset) (h : n.Comes offset good) (b : Binder) :
    b.Comes offset good (StartsBy branch.start) (Binder.cases [branch] b) := by
  obtain ⟨range, kind⟩ := branch
  have hp := hr.pieces
  have hc := hs.counted
  cases kind with
  | switchCase test consequent =>
    have hlo : range.start ≤ offset := Nat.le_trans (hp.right n hn).starts ha.1
    exact .after (stable_startsBy _) (fills_optional test b hp.left hc.left) (.after_relabels (stable_startsBy _)
      (.hoist _ consequent)
        (comes_statements hp.right hc.right (List.pairwise_append.1 hr.placed.inOrder.apart).2.1 hn ha
        hlo h _))
  | _ => cases hn

/-- The walk over a class element comes to the method if that over a statement of its body does. -/
theorem comes_method {element : Node} (hr : element.Room last lo hi) (hs : element.ScopesWithin most)
    (hn : n ∈ element.methodStatements) (ha : n.Around offset) (h : n.Comes offset good) (b : Binder) :
    b.Comes offset good (StartsBy element.start) (classElements [element] b) := by
  obtain ⟨range, kind⟩ := element
  have hp := hr.pieces
  have hc := hs.counted
  cases kind with
  | methodMember key kind isStatic value =>
    have hvalue := hp.head
    have hwithin := hc.head
    obtain ⟨valueRange, valueKind⟩ := value
    cases valueKind with
    | functionExpression parts =>
      obtain ⟨k, rfl, hscoped⟩ := hwithin.of_scope rfl
      exact (comes_function _ isStatic hvalue.pieces hscoped hn ha h b).weaken
        fun _ hs => Nat.le_trans hs hvalue.starts
    | _ => cases hn
  | _ => cases hn

/-- **The walk over a statement comes to the method** if that over a statement directly in it does. -/
theorem comes_inner (hr : Node.Room last lo hi ⟨range, kind⟩) (hs : Node.ScopesWithin most ⟨range, kind⟩)
    (hn : n ∈ kind.inner) (ha : n.Around offset) (h : n.Comes offset good) :
    Node.Comes offset good ⟨range, kind⟩ := by
  intro b
  have hp := hr.pieces
  have ho : InOrder range.start kind.pieces := hr.placed.inOrder
  have hroom := inherited_room.inner hr.tighten hn
  have hlo : range.start ≤ offset := Nat.le_trans hroom.starts ha.1
  have hstable := stable_startsBy range.start
  have hstart : ∀ s, StartsBy range.start s → s.start ≤ offset := fun s hs => Nat.le_trans hs hlo
  have hcomes : ∀ b, Binder.Comes offset good (StartsBy range.start) b (statement n b) :=
    fun b => (h b).weaken fun _ hs => Nat.le_trans hs hroom.starts
  change Binder.Comes offset good (StartsBy range.start) b (statement ⟨range, kind⟩ b)
  cases kind with
  | block body =>
    exact .scope_plain (.of_relabels (.rfl _)) (comes_hoisted hr.tighten hs hn ha h _) hlo
  | «if» test consequent alternate =>
    have hc := hs.counted
    have htest := fills_expression test b hp.head hc.head
    rcases List.mem_cons.1 hn with rfl | hn
    · exact .after hstable htest (.before hstart (hcomes _) (fills_optionalStatement alternate _ (fun m hm =>
        (hp.tail.tail m hm).later ((List.pairwise_cons.1 (List.pairwise_cons.1 ho.apart).2).1 m hm) ha) hc.tail.tail))
    · obtain rfl := Option.mem_toList.1 hn
      exact .after hstable (htest.trans (fills_statement consequent _ hp.tail.head hc.tail.head)) (hcomes _)
  | «while» test body =>
    obtain rfl := List.mem_singleton.1 hn
    exact .after hstable (fills_expression test b hp.head hs.counted.head) (hcomes _)
  | doWhile body test =>
    obtain rfl := List.mem_singleton.1 hn
    exact .after hstable (fills_expression test b hp.tail.head hs.counted.head) (hcomes _)
  | «for» init test update body =>
    obtain rfl := List.mem_singleton.1 hn
    obtain ⟨k, rfl, hc⟩ := hs.of_scope rfl
    have hc : AllScopesWithin k (init.toList ++ test.toList ++ update.toList ++ [n]) := hc
    have hinit := fills_loopStart init (b.enter .block range.start) hp.left.left.left hc.left.left.left
    exact .scope_plain (.of_relabels (.rfl _)) (.after hstable (hinit.trans
      ((fills_optional test _ hp.left.left.right hc.left.left.right).trans
        (fills_optional update _ hp.left.right hc.left.right))) (hcomes _)) hlo
  | forInOf left right body isOf =>
    obtain rfl := List.mem_singleton.1 hn
    obtain ⟨k, rfl, hc⟩ := hs.of_scope rfl
    have hc : AllScopesWithin k [left, right, n] := hc
    have hright := fills_expression right (b.enter .block range.start) hp.tail.head hc.tail.head
    have hleft := hp.head
    have hwithin := hc.head
    obtain ⟨leftRange, leftKind⟩ := left
    cases leftKind with
    | variableDeclaration kind declarations =>
      exact .scope_plain (.of_relabels (.rfl _)) (.after hstable (hright.trans
        (fills_loopTargets _ _ kind declarations _ hleft.inner hwithin.counted)) (hcomes _)) hlo
    | _ =>
      exact .scope_plain (.of_relabels (.rfl _)) (.after hstable (hright.trans
        (fills_expression _ _ hleft hwithin)) (hcomes _)) hlo
  | switch discriminant branches =>
    obtain ⟨branch, hbranch, hn⟩ := List.mem_flatMap.1 hn
    have hdiscriminant := fills_expression discriminant b hp.head hs.counted.head
    obtain ⟨k, rfl, hc⟩ := hs.of_scope rfl
    have hc : AllScopesWithin k (discriminant :: branches) := hc
    have hbroom := hp.tail branch hbranch
    have hbaround := (inherited_room.held hbroom.tighten (.inl hn)).around ha
    exact .after hstable hdiscriminant (.scope_plain (.of_relabels (.rfl _)) (.list hstable hlo cases_append
      (fun l b => fills_cases l b) hp.tail hc.tail (List.pairwise_cons.1 ho.apart).2 hbranch hbaround
      (fun b => (comes_case hbroom (hc.tail branch hbranch) hn ha h b).weaken
        fun _ hs => Nat.le_trans hs hbroom.starts) _)
      hlo)
  | «try» tried handler finalizer =>
    have hc := hs.counted
    have hafter := (List.pairwise_cons.1 ho.apart).1
    have hrest := (List.pairwise_cons.1 ho.apart).2
    rcases List.mem_cons.1 hn with rfl | hn
    · exact .before hstart (hcomes b) ((fills_catchClause handler _ (fun m hm => (hp.tail.left m hm).later
        (hafter m (List.mem_append_left _ hm)) ha) hc.tail.left).trans
          (fills_optionalStatement finalizer _ (fun m hm =>
          (hp.tail.right m hm).later (hafter m (List.mem_append_right _ hm)) ha) hc.tail.right))
    have htried := fills_statement tried b hp.head hc.head
    rcases List.mem_append.1 hn with hn | hn
    · obtain ⟨clause, hclause, hheld⟩ := List.mem_flatMap.1 hn
      have hclauseRoom := hp.tail.left clause hclause
      have haround := (inherited_room.held hclauseRoom.tighten (.inr (.inl hheld))).around ha
      obtain rfl := Option.mem_toList.1 hclause
      refine .after hstable htried (.before hstart ?_ (fills_optionalStatement finalizer _ (fun m hm =>
        (hp.tail.right m hm).later ((List.pairwise_append.1 hrest).2.2 clause hclause m hm) haround) hc.tail.right))
      have hwithin := hc.tail.left.head
      obtain ⟨clauseRange, clauseKind⟩ := clause
      cases clauseKind with
      | catchClause param body =>
        obtain ⟨bodyRange, bodyKind⟩ := body
        cases bodyKind with
        | block body =>
          obtain ⟨k, rfl, hscoped⟩ := hwithin.of_scope rfl
          have hbody : Node.ScopesWithin k ⟨bodyRange, .block body⟩ := hscoped _ List.mem_cons_self
          have hcatch : ∀ b, Binder.Comes offset good (StartsBy clauseRange.start) b
              (catchClause (some ⟨clauseRange, .catchClause param ⟨bodyRange, .block body⟩⟩) b) := fun b =>
            .scope_plain (.of_relabels (.rfl _)) (.after_relabels (stable_startsBy _) (.declare ..)
              (comes_hoisted hclauseRoom.pieces.head hbody hheld ha h _)) haround.1
          exact (hcatch _).weaken fun _ hs => Nat.le_trans hs hclauseRoom.starts
        | _ => cases hheld
      | _ => cases hheld
    · obtain rfl := Option.mem_toList.1 hn
      exact .after hstable (htried.trans (fills_catchClause handler _ hp.tail.left hc.tail.left)) (hcomes _)
  | functionDeclaration parts =>
    obtain ⟨k, rfl, hscoped⟩ := hs.of_scope rfl
    have hfunction := fun symbol => comes_function symbol false hp hscoped hn ha h b
    rw [statement]
    split
    · exact .before hstart (hfunction _) (.relabels (.refineResult ..) : Binder.Fills 0 (offset + 1) 0 0 _ _)
    · exact hfunction _
  | classDeclaration parts =>
    obtain ⟨element, helement, hn⟩ := List.mem_flatMap.1 hn
    have heroom := hp.right element helement
    have hbehind := hr.placed.braced.2.2.2 element helement
    have heround := (inherited_room.held heroom.tighten (.inr (.inr hn))).around ha
    have hwithin : element.ScopesWithin most := hs.of_mem (List.mem_append_right _ helement)
    exact .after_relabels hstable (.declare ..) (comes_classBody hr hs helement heround (stable_startsBy _)
      (fun s _ hstart _ => Nat.le_of_eq hstart)
      (fun b => (comes_method heroom hwithin hn ha h b).weaken fun _ hs => Nat.le_trans hs hbehind) _)
  | _ => cases hn

/-- **A statement comes to the method if one in it does**, with statements only between them. -/
theorem comes_encloses {m : Node} (h : n.Encloses m) (hm : ∀ {lo hi most : Nat}, m.Room last lo hi →
    m.ScopesWithin most → m.Around offset ∧ m.Comes offset good) :
    ∀ {lo hi most : Nat}, n.Room last lo hi → n.ScopesWithin most → n.Around offset ∧ n.Comes offset good := by
  induction h with
  | self n => exact hm
  | @inside n c m hc _ ih =>
    intro lo hi most hr hs
    obtain ⟨range, kind⟩ := n
    have hroom := inherited_room.inner hr.tighten hc
    obtain ⟨haround, hcomes⟩ := ih hm hroom (inherited_scopesWithin.inner hs hc)
    exact ⟨hroom.around haround, comes_inner hr hs hc haround hcomes⟩

/-! ### The method -/

/-- The type of `this` is a class of the name, seen from the side. -/
def Ty.IsClass (name : String) (side : ClassSide) (type : Ty) : Prop :=
  ∃ info, type = .class info ∧ info.name = name ∧ info.side = side

/-- In the function of a method `this` is as it should be if it is so in the class body. -/
theorem comes_target {parts : FunctionParts Node} {start : Nat} {pre : Scope → Prop} (symbol : Symbol)
    (isStatic : Bool)
    (hr : AllRoom offset start hi (parts.params ++ [parts.body]))
    (hs : AllScopesWithin most (parts.params ++ [parts.body]))
    (ha : parts.body.Around offset) (hpre : ∀ s, pre s → s.start ≤ start ∧ s.kind = .classBody ∧
      good (classOnSide s (if isStatic then .constructorSide else .instanceSide))) (b : Binder) :
    b.Comes offset good pre (function parts start (some symbol) isStatic b) := by
  rw [function_eq]
  intro above hb hp
  obtain ⟨hstart, hkind, hgood⟩ := hpre above hp
  have hlt := lt_size_of_frame? hb
  have hoffset : start ≤ offset := Nat.le_trans hr.right.head.starts ha.1
  obtain ⟨own, he⟩ := (Furnishes.setFunction (b.enter .function start) (some symbol) isStatic).entered hb hstart
  have hownstart : own.start = start := congrArg Outline.start he.outline_eq
  have hstatic : own.isStatic = isStatic := Furnishes.isStatic_setFunction he.frame
  have hwalk := fills_functionBody parts _ hr hs own he.frame (Nat.le_of_eq hownstart)
  obtain ⟨-, -, -, hparent, new, -, -, hframe⟩ := Widens.left parts.body.stop he hwalk.toWidens hlt
  have hself := hframe b.tree.size
  rw [if_pos rfl] at hself
  refine ⟨Widens.scope parts.body.stop he hwalk.toWidens hlt, b.tree.size, Nat.le_refl _,
    .down above.children [] hparent rfl hlt ?_ (by simp) (.self _), ?_, fun id s hid hs hcontains => ?_⟩
  · have hstop := ha.2
    rw [covers_of_frame? hself, Scope.contains, Bool.and_eq_true, decide_eq_true_eq, decide_eq_true_eq]
    constructor
    · exact Nat.le_trans (Nat.le_of_eq hownstart) hoffset
    · dsimp only
      omega
  · refine .method hself he.kind_eq (congrArg Outline.parent he.outline_eq) hparent hkind ?_
    rw [hstatic]
    exact hgood
  · rw [hframe, if_neg (Nat.ne_of_gt hid)] at hs
    have hclear := (hwalk.added id s (by rw [he.size]; exact hid) hs).clear
    exact Bool.eq_false_iff.2 fun hbinds => by
      rw [hclear hbinds] at hcontains
      cases hcontains

/-- A class has the name that it is given, whatever its elements. -/
theorem classInfo_name (eval : Evaluator) (env : TypeEnvironment) (parts : ClassParts Node) (name : String) :
    (Evaluator.classInfo eval env parts name).name = name := by
  have hfold : ∀ {α : Type} (f : ClassInfo Ty → α → ClassInfo Ty), (∀ info a, (f info a).name = info.name) →
      ∀ (l : List α) info, (l.foldl f info).name = info.name := by
    intro α f hf l
    induction l with
    | nil => exact fun _ => rfl
    | cons a l ih => exact fun info => (ih _).trans (hf info a)
  have hmember : ∀ (info : ClassInfo Ty) member, (info.addMember member).name = info.name := by
    intro info member
    rw [ClassInfo.addMember]
    split <;> rfl
  refine hfold _ (fun info element => ?_) parts.members _
  rw [Evaluator.addElement]
  split
  · rename_i kind _ _ _ _
    refine (hfold _ (fun info entry => hmember ..) _ _).trans ?_
    cases kind with
    | constructor => rfl
    | method | getter | setter => exact hmember ..
  · rw [Evaluator.addField]
    split <;> rfl
  · rfl

/-- The walk over the class comes to the method. -/
theorem comes_class {parts : ClassParts Node} {methodRange functionRange : TextRange} {key : String}
    {kind : MethodKind}
    {isStatic : Bool} {fn : FunctionParts Node}
    (hmethod : ⟨methodRange, .methodMember key kind isStatic ⟨functionRange, .functionExpression fn⟩⟩ ∈ parts.members)
    (ha : fn.body.Around offset) (hclear : ∀ m, fn.body.Contains m → m.kind.bindsThis = true → ¬ m.Around offset)
    (hr : Node.Room last lo hi ⟨range, .classDeclaration parts⟩)
    (hs : Node.ScopesWithin most ⟨range, .classDeclaration parts⟩) :
    Node.Around ⟨range, .classDeclaration parts⟩ offset ∧
      Node.Comes offset (Ty.IsClass (parts.name.getD "") (if isStatic then .constructorSide else .instanceSide))
        ⟨range, .classDeclaration parts⟩ := by
  have helement := hr.pieces.right _ hmethod
  have hfunction := helement.pieces.head
  have haround : Node.Around
    ⟨methodRange, .methodMember key kind isStatic ⟨functionRange, .functionExpression fn⟩⟩ offset :=
    (hfunction.pieces.right.head.mono hfunction.starts hfunction.stops).around ha
  refine ⟨helement.around haround, fun b => ?_⟩
  have hscopes : Node.ScopesWithin most ⟨functionRange, .functionExpression fn⟩ :=
    (hs.of_mem (List.mem_append_right _ hmethod)).of_mem List.mem_cons_self
  obtain ⟨k, rfl, hscoped⟩ := hscopes.of_scope rfl
  -- parameters end before the body starts, and in the body there is nothing with a `this` of its own
  have hroom : AllRoom offset functionRange.start functionRange.stop (fn.params ++ [fn.body]) := by
    have hpieces := hfunction.pieces
    have horder := (List.pairwise_append.1 hfunction.placed.inOrder.apart).2.2
    intro m hm
    refine { hpieces m hm with clear := fun k hk hbinds hin => ?_ }
    rcases List.mem_append.1 hm with hm | hm
    · have hstop := ((horder m hm fn.body List.mem_cons_self).of_contains hk).stop_le
      exact absurd (Nat.lt_of_lt_of_le hin.2 hstop) (Nat.not_lt.2 ha.1)
    · rw [List.mem_singleton.1 hm] at hk
      exact hclear k hk hbinds hin
  let symbol := b.classSymbol parts (parts.name.getD "")
  let pre : Scope → Prop := fun s => s.start ≤ parts.bodyRange.start ∧ s.kind = .classBody ∧
    s.classSymbol = some symbol
  have hpre : Stable parts.bodyRange.start pre := ⟨fun _ _ hs => hs, fun _ hs => hs.1⟩
  have hstart : parts.bodyRange.start ≤ functionRange.start :=
    Nat.le_trans (hr.placed.braced.2.2.2 _ hmethod) hfunction.starts
  refine .after_relabels (stable_startsBy _) (.declare ..) (comes_classBody hr hs hmethod haround hpre
    (fun s hkind hstart hsymbol => ⟨Nat.le_of_eq hstart, hkind, hsymbol⟩) (fun b' => ?_) _)
  refine comes_target (b'.methodSymbol key) isStatic hroom hscoped ha (fun s hs => ?_) b'
  refine ⟨Nat.le_trans hs.1 hstart, hs.2.1, ?_⟩
  rw [classOnSide, hs.2.2]
  exact ⟨_, rfl, classInfo_name .., rfl⟩

end

/-! ### The script -/

/-- Statements that were laid out have room in the text. -/
theorem LaidOut.allRoom {last most : Nat} {body : List Node} (h : LaidOut 0 last most body)
    (htight : ∀ n ∈ body, n.Tight) :
    AllRoom last 0 last body := fun n hn =>
  { placed := h.placed n hn
    tight := htight n hn
    starts := Nat.zero_le _
    stops := (h.within n hn).stop_le
    clear := fun _ hm _ hin => absurd ((h.within n hn).of_contains hm).stop_le (Nat.not_le.2 hin.2) }

/-- In the scopes of a script `this` is as it should be at an offset if one of the statements comes to
a scope where it is. -/
theorem thisType_bind {range : TextRange} {body : List Node} {n : Node} {last offset : Nat} {good : Ty → Prop}
    (tracksAssignments : Bool) (h : LaidOut 0 last (scopesAt 0) body) (htight : ∀ n ∈ body, n.Tight) (hn : n ∈ body)
    (ha : n.Around offset) (hcomes : n.Comes offset good) :
    let tree := (Node.bind ⟨range, .program body⟩ tracksAssignments).close root last
    good (tree.thisType (tree.scopeAt root offset)) := by
  intro tree
  let b := Binder.start tracksAssignments
  let b' := statements body (b.hoist body)
  have hroom := h.allRoom htight
  have hglobal : b.tree.frame? b.current = some (.opened .global none 0 0) := rfl
  have hfills : b.Fills last 0 last (scopesAt 0) b' := .after (.hoist b body) (fills_statements body _ hroom h.scopes)
  have hadds := hfills _ hglobal (Nat.le_refl _)
  have hwalk : b.Comes offset good (StartsBy 0) b' := .after_relabels (stable_startsBy 0) (.hoist b body)
    (comes_statements hroom h.scopes h.inOrder.apart hn ha (Nat.zero_le _) hcomes _)
  obtain ⟨-, f, hf, hleads, hthis, hclear⟩ := hwalk _ hglobal (Nat.le_refl _)
  have hlater : ∀ {id}, f < id → id ≠ root := fun hid => Nat.ne_of_gt (Nat.zero_lt_of_lt hid)
  -- closing the global scope moves its end only
  have hcurrent : b'.current = root := hadds.current
  obtain ⟨new, hown, -⟩ := hadds.own
  have hown : b'.tree.frame? root = some ⟨.global, none, [], new, 0, 0, none, none, false, 0⟩ := hown
  obtain ⟨-, hsize, hframe⟩ := frame?_leave last (hcurrent.symm ▸ hown)
  have htree : (b'.leave last).tree = tree := by
    rw [leave, hcurrent]
    rfl
  rw [htree] at hsize hframe
  have hroot := hframe root
  rw [if_pos hcurrent.symm] at hroot
  have hsame : ∀ id, id ≠ root → tree.frame? id = b'.tree.frame? id := by
    intro id hne
    rw [hframe, if_neg (hcurrent.symm ▸ hne)]
  have hn : tree.WellNested last := Binder.wellNested_bind tracksAssignments h
  refine thisType_scopeAt hn (fun id s hs => ?_)
    (hleads.mono (Nat.le_of_eq hsize.symm) (fun d hd _ => ?_) fun d s _ hs => ?_)
    (hthis.mono fun d s hs => ?_) fun id s hid hs => hclear id s hid ((hsame id (hlater hid)).symm.trans hs)
  · have hlimit : scopesAt 0 < walkLimit := by decide
    by_cases hid : id = root
    · subst hid
      have hdepth : s.depth = 0 := congrArg Scope.depth (Option.some.inj ((frame?_of_get? hs).symm.trans hroot))
      omega
    · have hdepth := (hadds.added id s.frame (Nat.pos_of_ne_zero hid)
        ((hsame id hid).symm.trans (frame?_of_get? hs))).depth
      exact Nat.lt_of_le_of_lt hdepth (by simpa [Scope.opened] using hlimit)
  · rw [covers_eq, hsame d (Nat.ne_of_gt (Nat.zero_lt_of_lt hd)), covers_eq]
  · by_cases hd : d = root
    · subst hd
      cases hown.symm.trans hs
      exact ⟨_, [], hroot, (List.append_nil _).symm, by simp⟩
    · exact ⟨s, [], (hsame d hd).trans hs, (List.append_nil _).symm, by simp⟩
  · by_cases hd : d = root
    · subst hd
      cases hown.symm.trans hs
      exact ⟨_, hroot, rfl, rfl, rfl, rfl⟩
    · exact ⟨s, (hsame d hd).trans hs, rfl, rfl, rfl, rfl⟩

/-- **In the body of a method `this` is the class of the method**, an instance of it or, if the method
is static, the class itself, at every offset that lies in no function and no class in the body. The
class may stand anywhere in statements, functions and methods of other classes. -/
theorem thisType_in_method (options : BindOptions) {text : List Char} {range : TextRange} {body : List Node}
    (h : parseProgram text = .ok ⟨range, .program body⟩) {n : Node} (hn : n ∈ body) {classRange : TextRange}
    {parts : ClassParts Node} (hclass : n.Encloses ⟨classRange, .classDeclaration parts⟩)
    {methodRange functionRange : TextRange} {key : String} {kind : MethodKind} {isStatic : Bool}
    {fn : FunctionParts Node}
    (hmethod : ⟨methodRange, .methodMember key kind isStatic ⟨functionRange, .functionExpression fn⟩⟩ ∈ parts.members)
    {offset : Nat} (hin : fn.body.Around offset)
    (hout : ∀ m, fn.body.Contains m → m.kind.bindsThis = true → ¬ m.Around offset) :
    let tree := (bindText options text).tree
    ∃ info, tree.thisType (tree.scopeAt root offset) = .class info ∧ info.name = parts.name.getD "" ∧
      info.side = if isStatic then .constructorSide else .instanceSide := by
  obtain ⟨_, _, heq, hlaid⟩ := laidOut_parseProgram h
  cases heq
  have htight := tight_parseProgram h
  have hroom := hlaid.allRoom htight
  obtain ⟨haround, hcomes⟩ := comes_encloses hclass (comes_class hmethod hin hout) (hroom n hn) (hlaid.scopes n hn)
  rw [tree_bindText options h]
  exact thisType_bind options.tracksAssignments hlaid htight hn haround hcomes

theorem thisType_in_method_body :
    let body : Node := ⟨⟨11, 13⟩, .block []⟩
    let method : Node := ⟨⟨8, 13⟩, .methodMember "m" .method false ⟨⟨9, 13⟩, .functionExpression ⟨some "m", [], body, false⟩⟩⟩
    let declared : Node := ⟨⟨0, 14⟩, .classDeclaration ⟨some "C", none, [method], ⟨7, 14⟩⟩⟩
    (parseProgram "class C{m(){}}".toList = .ok ⟨⟨0, 14⟩, .program [declared]⟩ ∧ body.Around 12 ∧
        ∀ m, body.Contains m → m.kind.bindsThis = true → ¬ m.Around 12) ∧
      let tree := (bindText {} "class C{m(){}}".toList).tree
      ∃ info, tree.thisType (tree.scopeAt root 12) = .class info ∧ info.name = "C" ∧ info.side = .instanceSide := by
  intro body method declared
  have hparse : parseProgram "class C{m(){}}".toList = .ok ⟨⟨0, 14⟩, .program [declared]⟩ := by with_unfolding_all rfl
  have hin : body.Around 12 := ⟨by decide, by decide⟩
  have hout : ∀ m, body.Contains m → m.kind.bindsThis = true → ¬ m.Around 12 := by
    intro m hm hbinds
    cases hm with
    | self => cases hbinds
    | inside hc => cases hc
  exact ⟨⟨hparse, hin, hout⟩,
    thisType_in_method {} hparse List.mem_cons_self (.self declared) List.mem_cons_self hin hout⟩

end Typeahead
