/-
# The scopes of an unfinished script

Where a script breaks off in the middle of blocks, each of these reaches past its end. While the
binder walks over it, it comes to a point where all of them are open and everything finished is
closed; from there it only leaves the open scopes, each behind the end of the text. So the scopes
around the end are the ones open at that point, the deepest is found there, and what is declared in
any of them is seen from it.

Key definitions: `Node.Unclosed`, `Trailing`, `Binder.Opens`, `Binder.Closes`, `Binder.BreaksOff`.
Key theorems: `ScopeTree.Hangs.scopeAtWithin_eq`, `Binder.BreaksOff.scope`, `breaksOff_statement`,
`sees_unclosed`.
-/
import Typeahead.Proofs.Scope.Deepest
import Typeahead.Proofs.Scope.Nesting
import Typeahead.Proofs.Unfinished.Declare

namespace Typeahead

/-! ### What is seen from the deepest scope at an offset -/

namespace ScopeTree

variable {tree tree' : ScopeTree} {last offset : Nat} {id p deep outer : ScopeId} {o : Outline} {name : String}

/-- A scope or one around it binds a name. -/
def Sees (tree : ScopeTree) (id : ScopeId) (name : String) : Prop :=
  ∃ outer, tree.Around id outer ∧ tree.Binds outer name

theorem WellNested.hangs (h : tree.WellNested last) : tree.Hangs where
  global := by
    obtain ⟨s, hs, hparent, hzero, -⟩ := h.global
    exact ⟨_, outline?_eq_some.2 ⟨s, hs, rfl⟩, hparent, hzero⟩
  below {id o} ho hne := by
    obtain ⟨s, hs, rfl⟩ := outline?_eq_some.1 ho
    obtain ⟨p, above, hp, habove, hlt, hcount, hdepth, -, hstart, -⟩ := h.below id s hs hne
    exact ⟨p, _, hp, outline?_eq_some.2 ⟨above, habove, rfl⟩, hlt, hcount, hdepth, hstart⟩
  listed {p above id} habove hc := by
    obtain ⟨s, hs, rfl⟩ := outline?_eq_some.1 habove
    obtain ⟨sc, hsc, hparent⟩ := h.listed p s id hs hc
    exact ⟨_, outline?_eq_some.2 ⟨sc, hsc, rfl⟩, hparent⟩

theorem Around.trans (h : tree.Around id p) (h' : tree.Around p outer) : tree.Around id outer := by
  induction h with
  | self => exact h'
  | above ho hp _ ih => exact .above ho hp (ih h')

/-- Right under a scope around another lies one that is on the way to it. -/
theorem Around.exists_below (h : tree.Around id outer) (hne : id ≠ outer) :
    ∃ c o, tree.outline? c = some o ∧ o.parent = some outer ∧ tree.Around id c := by
  induction h with
  | self => exact absurd rfl hne
  | @above id p outer o ho hp hrest ih =>
    by_cases heq : p = outer
    · exact ⟨id, o, ho, heq ▸ hp, .self id⟩
    · obtain ⟨c, oc, hoc, hpc, ha⟩ := ih heq
      exact ⟨c, oc, hoc, hpc, .above ho hp ha⟩

namespace Hangs

variable (h : tree.Hangs)
include h

/-- What lies around a scope is among its ancestors. -/
theorem mem_ancestorsWithin (ha : tree.Around id outer) {s : Scope} (hs : tree.get? id = some s) :
    ∀ {steps}, s.depth < steps → outer ∈ tree.ancestorsWithin steps id := by
  induction ha generalizing s with
  | self =>
    intro steps hsteps
    obtain ⟨steps, rfl⟩ : ∃ k, steps = k + 1 := ⟨steps - 1, by omega⟩
    rw [ancestorsWithin, hs]
    dsimp only
    split <;> exact List.mem_cons_self
  | @above id p outer o ho hp _ ih =>
    intro steps hsteps
    obtain ⟨steps, rfl⟩ : ∃ k, steps = k + 1 := ⟨steps - 1, by omega⟩
    obtain ⟨above, habove, -, hdepth⟩ := h.of_parent ho hp
    obtain ⟨s', hs', rfl⟩ := outline?_eq_some.1 ho
    obtain ⟨sp, hsp, rfl⟩ := outline?_eq_some.1 habove
    cases hs.symm.trans hs'
    have hparent : s.parent = some p := hp
    have hdepth' : s.depth = sp.depth + 1 := hdepth
    rw [ancestorsWithin, hs]
    simp only [hparent]
    exact List.mem_cons_of_mem _ (ih hsp (by omega))

/-- A name that is bound around a scope resolves from it. -/
theorem isSome_resolve? (hsees : tree.Sees id name) (ho : tree.outline? id = some o) (hdepth : o.depth < walkLimit) :
    (tree.resolve? id name).isSome = true := by
  obtain ⟨outer, ha, s, hs, symbol, hsymbol, hkind⟩ := hsees
  obtain ⟨own, hown, rfl⟩ := outline?_eq_some.1 ho
  have hmem : outer ∈ tree.ancestors id := h.mem_ancestorsWithin ha hown hdepth
  have hbinding : tree.ownBinding? outer name = some symbol := by
    rw [ownBinding?, symbol?, hs, Option.bind_some, hsymbol, Option.filter_some, hkind]
    rfl
  rw [resolve?, Option.isSome_map, resolveWithScope?, List.findSome?_isSome_iff]
  exact ⟨outer, hmem, by rw [hbinding]; rfl⟩

end Hangs

end ScopeTree

/-! ### Scopes that are left open -/

namespace Binder

open ScopeTree

variable {offset scopes last : Nat} {names names' : List String} {b b' c e : Binder} {id : ScopeId}

/-- A step of the binder leaves every scope where it hangs. -/
theorem Step.kept {o : Outline} (hs : Step last b b') (ho : b.tree.outline? id = some o) :
    ∃ o', b'.tree.outline? id = some o' ∧ o'.parent = o.parent ∧ o'.depth = o.depth := by
  have hsame : b.SameOutline b' → ∃ o', b'.tree.outline? id = some o' ∧ o'.parent = o.parent ∧ o'.depth = o.depth :=
    fun hs => ⟨o, (hs.outline id).trans ho, rfl, rfl⟩
  cases hs with
  | @enter kind start _ =>
    cases hcurrent : b.tree.get? b.current with
    | none =>
      have henter : b.enter kind start = b := by rw [Binder.enter, openScope?, hcurrent, Option.map_none]
      exact ⟨o, by rw [henter, ho], rfl, rfl⟩
    | some above =>
      obtain ⟨-, -, hout⟩ := outline?_enter_max kind start (outline?_eq_some.2 ⟨above, hcurrent, rfl⟩)
      rw [hout, if_neg (Nat.ne_of_lt (lt_size_of_outline? ho))]
      split
      · rename_i heq
        subst heq
        obtain ⟨s, hs, rfl⟩ := outline?_eq_some.1 ho
        cases hs.symm.trans hcurrent
        exact ⟨_, rfl, rfl, rfl⟩
      · exact ⟨o, ho, rfl, rfl⟩
  | @leave stop _ =>
    obtain ⟨s, hs, rfl⟩ := outline?_eq_some.1 ho
    rw [Binder.leave, ScopeTree.close, outline?, get?_modify, hs]
    split
    · exact ⟨_, rfl, rfl, rfl⟩
    · exact ⟨_, rfl, rfl, rfl⟩
  | define id symbol => exact hsame (.define b id symbol)
  | retype id name type => exact hsame (.retype b id name type)
  | setClass symbol => exact hsame (.setClass b symbol)
  | setFunction symbol isStatic => exact hsame (.setFunction b symbol isStatic)

/-- So does a run. -/
theorem Runs.kept {o : Outline} (h : Runs last b c) (ho : b.tree.outline? id = some o) :
    ∃ o', c.tree.outline? id = some o' ∧ o'.parent = o.parent ∧ o'.depth = o.depth := by
  refine h.invariant (P := fun c => ∃ o', c.tree.outline? id = some o' ∧ o'.parent = o.parent ∧ o'.depth = o.depth)
    (fun hs hb => ?_) ⟨o, ho, rfl, rfl⟩
  obtain ⟨o₁, ho₁, hparent, hdepth⟩ := hb
  obtain ⟨o₂, ho₂, hparent', hdepth'⟩ := hs.kept ho₁
  exact ⟨o₂, ho₂, hparent'.trans hparent, hdepth'.trans hdepth⟩

theorem Runs.nests (h : Runs last b c) (hb : b.Nests last) : c.Nests last := h.invariant (fun hs hb => hb.step hs) hb

/-- From one state to another so many scopes are opened one in another and left open, and the names
are bound by them or by the one that was open before. -/
structure Opens (offset scopes : Nat) (names : List String) (b c : Binder) : Prop where
  runs : Runs offset b c
  binds : ∀ id name, b.tree.Binds id name → c.tree.Binds id name
  inside : c.tree.Around c.current b.current
  deeper : ∀ o, b.tree.outline? b.current = some o →
    ∃ o', c.tree.outline? c.current = some o' ∧ o'.depth = o.depth + scopes
  sees : ∀ name ∈ names, c.tree.Sees c.current name

/-- From one state to another scopes that were open are left, no sooner than at an offset, and
nothing else is done but to tell types. -/
structure Closes (last : Nat) (c e : Binder) : Prop where
  shape : c.tree.SameShape e.tree
  outside : c.tree.Around c.current e.current
  finished : ∀ id, ¬ c.tree.Around c.current id → e.tree.outline? id = c.tree.outline? id
  stops : ∀ id, c.tree.Around c.current id → c.tree.Around e.current id ∨
    ∃ o, e.tree.outline? id = some o ∧ last ≤ o.stop
  binds : ∀ id name, c.tree.Binds id name → e.tree.Binds id name

/-- A walk breaks off at an offset: all that it does before that is to open scopes, and all that it
does behind it is to leave them. -/
def BreaksOff (offset scopes : Nat) (names : List String) (b b' : Binder) : Prop :=
  b.Nests offset → ∃ c, Opens offset scopes names b c ∧ Closes (offset + 1) c b' ∧ b'.current = b.current

namespace Closes

theorem rfl (last : Nat) (c : Binder) : Closes last c c where
  shape := ⟨Eq.refl _, fun {_ o} ho => ⟨o.stop, ho⟩⟩
  outside := .self _
  finished _ _ := Eq.refl _
  stops _ ha := .inl ha
  binds _ _ h := h

theorem isOpen (h : Closes last c e) (hc : c.Nests offset) : e.current < e.tree.size := by
  rw [h.shape.size]
  exact Nat.lt_of_le_of_lt (hc.hangs.le_of_around h.outside) hc.isOpen

/-- Types are told. -/
theorem same (h : Closes last c e) (hc : c.Nests offset) (hs : e.SameOutline b') (hkeeps : e.Keeps b') :
    Closes last c b' where
  shape := ⟨hs.size.trans h.shape.size, fun {id o} ho => by rw [hs.outline id]; exact h.shape.shape ho⟩
  outside := by rw [hs.current]; exact h.outside
  finished id hnot := (hs.outline id).trans (h.finished id hnot)
  stops id ha := by rw [hs.current, hs.outline id]; exact h.stops id ha
  binds id name hb := (hkeeps (h.isOpen hc)).binds (h.binds id name hb)

/-- What lies around a scope does before as after. -/
theorem around_iff (h : Closes last c e) {outer : ScopeId} : e.tree.Around id outer ↔ c.tree.Around id outer := by
  refine ⟨fun ha => ha.mono fun id o ho => ?_, fun ha => ha.mono fun id o ho => ?_⟩
  · obtain ⟨old, hold, stop, rfl⟩ := h.shape.back ho
    exact ⟨old, hold, Eq.refl _⟩
  · obtain ⟨stop, hnew⟩ := h.shape.shape ho
    exact ⟨_, hnew, Eq.refl _⟩

/-- A scope that holds one that was open too holds one that stops no sooner than the offset. -/
theorem le_lastStop (h : Closes last c e) (hc : c.Nests offset) {own : Outline}
    (hown : e.tree.outline? e.current = some own) (hne : e.current ≠ c.current) :
    last ≤ e.tree.lastStop own.children := by
  have hhangs := hc.hangs.sameShape h.shape
  obtain ⟨child, oc, hoc, hparent, hac⟩ := h.outside.exists_below (Ne.symm hne)
  obtain ⟨_, hoc'⟩ := h.shape.shape hoc
  obtain ⟨above, habove, hmem, -⟩ := hhangs.of_parent hoc' hparent
  cases hown.symm.trans habove
  have hleft : ¬ c.tree.Around e.current child := fun ha =>
    Nat.not_le_of_gt (hhangs.lt_of_listed hown hmem) (hc.hangs.le_of_around ha)
  obtain ⟨o, ho, hle⟩ := (h.stops child hac).resolve_left hleft
  exact Nat.le_trans hle (stop_le_lastStop hmem ho)

/-- A scope is left: behind the offset, or one that holds another that was open. -/
theorem leave (h : Closes last c e) (hc : c.Nests offset) (stop : Nat) (hstop : last ≤ stop ∨ e.current ≠ c.current) :
    Closes last c (e.leave stop) := by
  obtain ⟨own, hown⟩ := exists_outline? (h.isOpen hc)
  obtain ⟨hcurrent, hsize, hout⟩ := outline?_leave stop hown
  obtain ⟨old, hold, _, hsame⟩ := h.shape.back hown
  have hlast : last ≤ max (max stop own.start) (e.tree.lastStop own.children) := by
    rcases hstop with hstop | hne
    · omega
    · have := h.le_lastStop hc hown hne
      omega
  refine ⟨⟨hsize.trans h.shape.size, fun {id o} ho => ?shape⟩, ?outside, fun id hnot => ?finished, fun id ha => ?stops,
    fun id name hb => ?binds⟩
  case shape =>
    obtain ⟨stop', hnew⟩ := h.shape.shape ho
    rw [hout]
    split
    · rename_i heq
      subst heq
      cases hnew.symm.trans hown
      exact ⟨_, Eq.refl _⟩
    · exact ⟨stop', hnew⟩
  case outside =>
    rw [hcurrent]
    cases hparent : own.parent with
    | none => exact h.outside
    | some p => exact h.outside.trans (.above hold (by rw [hsame] at hparent; exact hparent) (.self p))
  case finished =>
    have hne : id ≠ e.current := fun heq => hnot (by rw [heq]; exact h.outside)
    rw [hout, if_neg hne, h.finished id hnot]
  case stops =>
    by_cases hid : id = e.current
    · subst hid
      exact .inr ⟨_, (hout _).trans (if_pos (Eq.refl _)), hlast⟩
    · rw [hout, if_neg hid]
      refine (h.stops id ha).imp (fun ha => ?_) fun hs => hs
      cases ha with
      | self => exact absurd (Eq.refl _) hid
      | above ho hp hrest =>
        cases hold.symm.trans ho
        rw [hcurrent, show own.parent = some _ by rw [hsame]; exact hp]
        exact hrest
  case binds =>
    obtain ⟨s, hs, hbinds⟩ := h.binds id name hb
    obtain ⟨own', hown', -⟩ := outline?_eq_some.1 hown
    obtain ⟨-, -, hget⟩ := get?_leave stop hown'
    by_cases hid : id = e.current
    · subst hid
      cases hs.symm.trans hown'
      exact ⟨_, (hget _).trans (if_pos (Eq.refl _)), hbinds⟩
    · exact ⟨s, by rw [hget, if_neg hid, hs], hbinds⟩

/-- **Once all is left but the global scope, the scopes at the offset are those that were open.** -/
theorem holds_iff (h : Closes (offset + 1) c e) (hc : c.Nests offset) (hcurrent : e.current = root)
    (hlast : ∀ o, e.tree.outline? root = some o → offset < o.stop) (id : ScopeId) :
    e.tree.Holds offset id ↔ e.tree.Around c.current id := by
  rw [h.around_iff]
  refine ⟨fun ⟨o, ho, _, hstop⟩ => ?_, fun ha => ?_⟩
  · by_contra hnot
    have := (hc.closed id hnot o (h.finished id hnot ▸ ho)).2.1
    omega
  · obtain ⟨old, hold⟩ := exists_outline? (Nat.lt_of_le_of_lt (hc.hangs.le_of_around ha) hc.isOpen)
    obtain ⟨stop, hnew⟩ := h.shape.shape hold
    refine ⟨_, hnew, hc.starts id old hold, ?_⟩
    rcases h.stops id ha with hup | ⟨o, ho, hle⟩
    · rw [hcurrent] at hup
      obtain rfl := hc.hangs.eq_root hup
      exact hlast _ hnew
    · cases hnew.symm.trans ho
      exact hle

end Closes

namespace BreaksOff

theorem none (b : Binder) : BreaksOff offset 0 [] b b :=
  fun _ => ⟨b, ⟨.refl, fun _ _ h => h, .self _, fun o ho => ⟨o, ho, rfl⟩, fun _ h => by cases h⟩, .rfl _ b, rfl⟩

/-- What is declared first is seen from where the walk breaks off. -/
theorem cons (hkeeps : b.Keeps b') (hruns : Runs offset b b') (h : Declares b.current names b b')
    (h' : BreaksOff offset scopes names' b' e) : BreaksOff offset scopes (names ++ names') b e := by
  intro hb
  have hretains := hkeeps hb.isOpen
  obtain ⟨c, hopens, hcloses, hcurrent⟩ := h' (hruns.nests hb)
  refine ⟨c, ⟨hruns.trans hopens.runs, fun id name hbinds => hopens.binds id name (hretains.binds hbinds), ?_,
    fun o ho => ?_, fun name hname => ?_⟩, hcloses, hcurrent.trans hretains.current⟩
  · rw [← hretains.current]
    exact hopens.inside
  · obtain ⟨o', ho', -, hdepth⟩ := hruns.kept ho
    obtain ⟨o'', ho'', hdepth'⟩ := hopens.deeper o' (by rw [hretains.current, ho'])
    exact ⟨o'', ho'', by rw [hdepth', hdepth]⟩
  · rcases List.mem_append.1 hname with hname | hname
    · exact ⟨b.current, hretains.current ▸ hopens.inside, hopens.binds _ _ (h hb.isOpen hb.isOpen name hname)⟩
    · exact hopens.sees name hname

/-- What is finished first changes nothing of what breaks off. -/
theorem after (hkeeps : b.Keeps b') (hruns : Runs offset b b') (h : BreaksOff offset scopes names b' e) :
    BreaksOff offset scopes names b e :=
  cons hkeeps hruns (.none b b') h

/-- Types are told behind what breaks off. -/
theorem same (h : BreaksOff offset scopes names b b') (hs : b'.SameOutline e) (hkeeps : b'.Keeps e) :
    BreaksOff offset scopes names b e := by
  intro hb
  obtain ⟨c, hopens, hcloses, hcurrent⟩ := h hb
  exact ⟨c, hopens, hcloses.same (hopens.runs.nests hb) hs hkeeps, hs.current.trans hcurrent⟩

/-- **A scope in which a walk breaks off is open there.** It is left behind the offset, or holds
another that is. -/
theorem scope {kind : ScopeKind} {start stop : Nat} (hstart : start ≤ offset) (htunes : (b.enter kind start).Tunes c)
    (hruns : Runs offset (b.enter kind start) c) (h : BreaksOff offset scopes names c b')
    (hstop : offset < stop ∨ 0 < scopes) : BreaksOff offset (scopes + 1) names b (b'.leave stop) := by
  intro hb
  obtain ⟨above, habove⟩ := exists_current hb.isOpen
  obtain ⟨hcurrent, hsize, hget⟩ := get?_enter kind start habove
  have hentered : Runs offset b c := .head (.enter kind hstart) hruns
  have hc := hentered.nests hb
  obtain ⟨d, hopens, hcloses, hback⟩ := h hc
  have hc' : c.current = b.tree.size := htunes.current.trans hcurrent
  -- the scope just opened and the one it lies in, there and where the walk breaks off
  have hnew := outline?_eq_some.2 ⟨_, (hget b.tree.size).trans (if_pos rfl), rfl⟩
  obtain ⟨own, hown, hparent, hdepth⟩ := hruns.kept hnew
  obtain ⟨own', hown', hparent', hdepth'⟩ := hopens.runs.kept hown
  have hup : d.tree.Around d.current b.current :=
    hopens.inside.trans (.above (hc' ▸ hown') (hparent'.trans hparent) (.self _))
  obtain ⟨deep, hdeep, hdeeper⟩ := hopens.deeper own (by rw [hc', hown])
  refine ⟨d, ⟨hentered.trans hopens.runs, fun id name hbinds => hopens.binds id name ?_, hup,
    fun o ho => ⟨deep, hdeep, ?_⟩, hopens.sees⟩, hcloses.leave (hopens.runs.nests hc) stop ?_, ?_⟩
  · obtain ⟨s, hs, hname⟩ := hbinds
    have hid : id < b.tree.size := (Array.getElem?_eq_some_iff.1 hs).1
    rw [ScopeTree.Binds, htunes.others id (hcurrent.symm ▸ Nat.ne_of_lt hid), hget, if_neg (Nat.ne_of_lt hid)]
    split
    · rename_i heq
      subst heq
      cases hs.symm.trans habove
      exact ⟨_, rfl, hname⟩
    · exact ⟨s, hs, hname⟩
  · obtain ⟨s, hs, rfl⟩ := outline?_eq_some.1 ho
    cases hs.symm.trans habove
    rw [hdeeper, hdepth]
    dsimp only [Scope.outline, Scope.opened]
    omega
  · refine hstop.imp (fun h => h) fun hpos heq => ?_
    cases hdeep.symm.trans (show d.tree.outline? d.current = some own' by rw [← heq, hback, hc', hown'])
    omega
  · obtain ⟨_, hleft⟩ := hcloses.shape.shape hown'
    obtain ⟨hcurrent', -⟩ := outline?_leave stop (show b'.tree.outline? b'.current = _ by rw [hback, hc', hleft])
    rw [hcurrent', show own'.parent = some b.current from hparent'.trans hparent]
    rfl

end BreaksOff

end Binder

/-! ### Trees that run past an offset -/

mutual
/-- A statement that is open at an offset, the scopes it leaves open there, and the names declared
in them. -/
inductive Node.Unclosed (offset : Nat) : (scopes : Nat) → Node → List String → Prop
  | block {scopes start : Nat} {body : List Node} {names : List String} (hbody : Trailing offset scopes body names) :
      Node.Unclosed offset (scopes + 1) ⟨⟨start, offset + 1⟩, .block body⟩ names
  | ifThen {scopes : Nat} {range : TextRange} {test consequent : Node} {names : List String}
      (hconsequent : Node.Unclosed offset scopes consequent names) :
      Node.Unclosed offset scopes ⟨range, .if test consequent none⟩ names
  | whileLoop {scopes : Nat} {range : TextRange} {test body : Node} {names : List String}
      (hbody : Node.Unclosed offset scopes body names) : Node.Unclosed offset scopes ⟨range, .while test body⟩ names
  | forLoop {scopes : Nat} {range : TextRange} {init test update : Option Node} {body : Node} {names : List String}
      (hbody : Node.Unclosed offset scopes body names) :
      Node.Unclosed offset (scopes + 1) ⟨range, .for init test update body⟩ names
  | switchCase {scopes start : Nat} {range : TextRange} {discriminant test : Node} {body : List Node} {names : List String}
      (htest : test.EndsWithin offset) (hbody : Trailing offset scopes body names) : Node.Unclosed offset (scopes + 1)
        ⟨⟨start, offset + 1⟩, .switch discriminant [⟨range, .switchCase (some test) body⟩]⟩ names
  | function {scopes bodyStart : Nat} {range : TextRange} {name : Option String} {params body : List Node} {isAsync : Bool}
      {names : List String} (hbody : Trailing offset scopes body names) :
      Node.Unclosed offset (scopes + 1) ⟨range, .functionDeclaration
        ⟨name, params, ⟨⟨bodyStart, offset + 1⟩, .block body⟩, isAsync⟩⟩ (parameterBoundNames params ++ names)
  | method {scopes bodyStart classStart : Nat} {range elementRange functionRange : TextRange}
      {name methodName : Option String} {key : String} {kind : MethodKind} {isStatic isAsync : Bool}
      {params body : List Node} {names : List String} (hbody : Trailing offset scopes body names) :
      Node.Unclosed offset (scopes + 2) ⟨range, .classDeclaration ⟨name, none,
        [⟨elementRange, .methodMember key kind isStatic ⟨functionRange, .functionExpression
          ⟨methodName, params, ⟨⟨bodyStart, offset + 1⟩, .block body⟩, isAsync⟩⟩⟩],
        ⟨classStart, offset + 1⟩⟩⟩
        (parameterBoundNames params ++ names)

/-- Statements that go on up to an offset, the scopes they leave open there, and the names declared
in them and in those scopes. -/
inductive Trailing (offset : Nat) : (scopes : Nat) → List Node → List String → Prop
  | nil : Trailing offset 0 [] []
  | cons {scopes : Nat} {n : Node} {rest : List Node} {names : List String} (hn : n.EndsWithin offset)
      (hrest : Trailing offset scopes rest names) : Trailing offset scopes (n :: rest) (n.lexicalNames ++ names)
  | last {scopes : Nat} {n : Node} {names : List String} (hn : n.Unclosed offset scopes names) :
      Trailing offset scopes [n] names
end

section

variable {offset scopes : Nat} {n : Node} {l rest : List Node} {m : Node} {range : TextRange} {kind : NodeKind}
  {names : List String}

/-- A statement that is open leaves a scope open. -/
theorem Node.Unclosed.scopes_pos : ∀ {scopes n names}, Node.Unclosed offset scopes n names → 0 < scopes
  | _, _, _, .block _ | _, _, _, .forLoop _ | _, _, _, .switchCase .. | _, _, _, .function _ | _, _, _, .method _ =>
    Nat.succ_pos _
  | _, _, _, .ifThen h | _, _, _, .whileLoop h => h.scopes_pos

/-- A tree that ends one further starts no later than at the offset. -/
theorem Node.Fits.start_le_of_succ (h : n.Fits (offset + 1)) : n.start ≤ offset :=
  Nat.le_of_lt_succ (Nat.lt_of_lt_of_le h.placed.start_lt_stop h.stop_le)

/-- The pieces before another end before the offset. -/
theorem Node.Fits.before (h : Node.Fits (offset + 1) ⟨range, kind⟩) (hp : kind.pieces = l ++ m :: rest) :
    AllFit offset l := by
  intro n hn
  have hpieces := h.pieces
  have horder := h.placed.inOrder.apart
  rw [hp] at hpieces horder
  have hm : m.Fits (offset + 1) := hpieces.right.head
  have hends : n.EndsWithin m.start := (List.pairwise_append.1 horder).2.2 n hn m List.mem_cons_self
  exact ⟨(hpieces.left n hn).placed, hends.mono hm.start_le_of_succ⟩

end

/-! ### The walk over an unfinished script -/

open Binder ScopeTree

section

variable {offset scopes : Nat} {names : List String}

/-- A function shows its parameters where its body is open. -/
theorem Binder.BreaksOff.function {body params : List Node} (hparams : AllFit offset params)
    (hbody : ∀ b, BreaksOff offset scopes names b (statements body b)) (name : Option String) (bodyStart : Nat)
    (isAsync : Bool) {start : Nat} (hstart : start ≤ offset) (symbol : Option Symbol) (isStatic : Bool) (b : Binder) :
    BreaksOff offset (scopes + 1) (parameterBoundNames params ++ names) b
      (Binder.function ⟨name, params, ⟨⟨bodyStart, offset + 1⟩, .block body⟩, isAsync⟩ start symbol isStatic b) :=
  .scope hstart (.setFunction _ symbol isStatic) (.single (.setFunction symbol isStatic))
    (.cons (keeps_parameters params _) (runs_parameters params _ hparams) (declares_parameters params _)
      (.after (.hoist _ body) (.hoist _ body) (hbody _))) (.inl (Nat.lt_succ_self _))

/-- In the body of a class its only element is open. -/
theorem Binder.BreaksOff.classBody {element : Node}
    (helement : ∀ b, BreaksOff offset scopes names b (classElements [element] b)) {start : Nat} (hstart : start ≤ offset)
    (name : Option String) (symbol : Symbol) (b : Binder) : BreaksOff offset (scopes + 1) names b
      (Binder.classBody ⟨name, Option.none, [element], ⟨start, offset + 1⟩⟩ symbol b) :=
  .scope hstart ((Tunes.declareMembers _ symbol).trans (.setClass _ symbol))
    (.trans (.declareMembers _ symbol) (.single (.setClass symbol))) (helement _) (.inl (Nat.lt_succ_self _))

mutual
/-- **The walk over a statement that is open at an offset breaks off there.** -/
theorem breaksOff_statement {scopes : Nat} {n : Node} {names : List String} (hn : n.Unclosed offset scopes names)
    (h : n.Fits (offset + 1)) (b : Binder) : BreaksOff offset scopes names b (statement n b) := by
  cases hn with
  | @block _ _ body _ hbody =>
    exact .scope h.start_le_of_succ (.rfl _) .refl
      (.after (.hoist _ body) (.hoist _ body) (breaksOff_statements hbody h.pieces _)) (.inl (Nat.lt_succ_self _))
  | @ifThen _ _ test _ _ hconsequent =>
    exact .after (keeps_expression test b) (runs_expression test b (h.before (l := [test]) rfl).head)
      (breaksOff_statement hconsequent h.pieces.tail.head _)
  | @whileLoop _ _ test _ _ hbody =>
    exact .after (keeps_expression test b) (runs_expression test b (h.before (l := [test]) rfl).head)
      (breaksOff_statement hbody h.pieces.tail.head _)
  | @forLoop _ _ init test update _ _ hbody =>
    have hhead := h.before (l := init.toList ++ test.toList ++ update.toList) rfl
    have hkeeps (c : Binder) := (keeps_loopStart init c).trans ((keeps_optional test _).trans (keeps_optional update _))
    have hruns (c : Binder) := (runs_loopStart init c hhead.left.left).trans
      ((runs_optional test _ hhead.left.right).trans (runs_optional update _ hhead.right))
    exact .scope h.start_le_of_succ (.rfl _) .refl
      (.after (hkeeps _) (hruns _) (breaksOff_statement hbody h.pieces.right.head _)) (.inr hbody.scopes_pos)
  | @switchCase _ _ _ discriminant test body _ htest hbody =>
    have hcase := h.pieces.tail.head.pieces
    have hkeeps (c : Binder) := (keeps_expression test c).trans (.hoist _ body)
    have hruns (c : Binder) := (runs_expression test c ⟨hcase.head.placed, htest⟩).trans (.hoist _ body)
    exact .after (keeps_expression discriminant b)
      (runs_expression discriminant b (h.before (l := [discriminant]) rfl).head)
      (.scope h.start_le_of_succ (.rfl _) .refl
        (.after (hkeeps _) (hruns _) (breaksOff_statements hbody hcase.tail _)) (.inl (Nat.lt_succ_self _)))
  | @function _ bodyStart _ name params body isAsync _ hbody =>
    have hfunction (symbol : Option Symbol) := BreaksOff.function (h.before (l := params) rfl)
      (breaksOff_statements hbody h.pieces.right.head.pieces) name bodyStart isAsync h.start_le_of_succ symbol false b
    rw [statement]
    split
    · exact (hfunction _).same (.refineResult _ _ _ _ _) (.refineResult _ _ _ _ _)
    · exact hfunction _
  | @method _ bodyStart classStart _ _ _ name methodName key _ isStatic isAsync params body _ hbody =>
    have hvalue := h.pieces.head.pieces.head
    have hmethod (c : Binder) := BreaksOff.function (hvalue.before (l := params) rfl)
      (breaksOff_statements hbody hvalue.pieces.right.head.pieces) methodName bodyStart isAsync hvalue.start_le_of_succ
      (some (c.methodSymbol key)) isStatic c
    have hclass : classStart ≤ offset := Nat.le_of_lt_succ h.placed.braced.2.1
    rw [statement]
    refine .after (.declare b _ _ rfl _) (.declare b _ _ _ _) (.classBody (fun c => ?_) hclass _ _ _)
    rw [classElements, classElements]
    exact hmethod c

/-- **So does the walk over statements that go on up to the offset.** -/
theorem breaksOff_statements {scopes : Nat} {body : List Node} {names : List String}
    (hbody : Trailing offset scopes body names) (h : AllFit (offset + 1) body) (b : Binder) :
    BreaksOff offset scopes names b (statements body b) := by
  cases hbody with
  | nil => exact .none b
  | @cons _ n rest _ hn hrest =>
    exact .cons (keeps_statement n b) (runs_statement n b ⟨h.head.placed, hn⟩) (declares_statement n b)
      (breaksOff_statements hrest h.tail _)
  | last hn => exact breaksOff_statement hn h.head b
end

end

end Typeahead
