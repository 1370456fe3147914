/-
# Two parses of the same tokens

A clean run of one parse is carried over to another, which may be in the other mode, have
other places remembered and begin less deep: it reads the same, unless the run stops at an
`=>` that it cannot read, or the value breaks off at the end of the input and only the first
parse closes it there. What is remembered counts only where the second parse has some other
parse's word for it that no arrow function begins there.

Key definitions: `FallsBack`, `Commits`, `Comparison`, `Comparison.Pair`, `Comparison.Carries`.
Key theorems: `Comparison.Carries.bind`, `Comparison.Carries.closeBrace`.
-/
import Typeahead.Proofs.Parse.Heads

namespace Typeahead

open Parse Grammar

variable {α β : Type}

/-- A parse without memory, in a mode, comes to a place of the tokens. -/
structure ParserState.ForgetfulAt (s : ParserState) (recovering : Bool) (tokens : Array Token)
    (place : Nat) : Prop where
  tokens : s.stream.tokens = tokens
  position : s.position = place
  recovering : s.recovering = recovering
  forgets : s.remembersArrows = false

/-- Some parse reads a list in the parentheses that open at a place, and no arrow follows. -/
def FallsBack (recovering : Bool) (tokens : Array Token) (place : Nat) : Prop :=
  ∃ (levels : Nat) (s t : ParserState), s.ForgetfulAt recovering tokens place ∧
    ReadsItems (parseLevel levels) { s.advance with noIn := false } t ∧ t.advance.kind ≠ .punct .arrow

/-- Some parse reads the parameters of an arrow function at a place. -/
def Commits (recovering : Bool) (tokens : Array Token) (place : Nat) : Prop :=
  ∃ (levels : Nat) (s : ParserState) (params : List Node) (u : ParserState),
    s.ForgetfulAt recovering tokens place ∧ ReadsParameters (parseLevel levels) s params u

/-- Two ways to parse some tokens that end at `last`: the modes, and whether they remember.
The second may remember only if the first is in its mode and does not, and no place where
some parse reads a list is one where another reads parameters. Both parses are past `start`,
and what is remembered of places before it is of no account. -/
structure Comparison where
  tokens : Array Token
  start : Nat
  last : Nat
  mode : Bool
  mode' : Bool
  memory : Bool
  memory' : Bool
  ends : ∀ s : ParserState, s.stream.tokens = tokens → s.kind = .endOfInput → s.current.stop = last
  sound : memory' = true → memory = false ∧ mode' = mode ∧
    ∀ p, Commits mode tokens p → ¬ FallsBack mode tokens p

namespace Comparison

variable {c : Comparison} {s t s' t' : ParserState} {O : α → Prop} {a : α}

/-- What the second parse remembers, some parse without memory has found. -/
def Remembers (c : Comparison) (t : ParserState) : Prop :=
  c.memory' = true → ∀ p ∈ t.failedArrows, c.start ≤ p → FallsBack c.mode c.tokens p

/-- The states of the two parses, at the same place. -/
structure Pair (c : Comparison) (s t : ParserState) : Prop where
  tokens : s.stream.tokens = c.tokens
  started : c.start ≤ s.position
  mode : s.recovering = c.mode
  memory : s.remembersArrows = c.memory
  mode' : t.recovering = c.mode'
  memory' : t.remembersArrows = c.memory'
  view : s.SameView t
  depth : t.depth ≤ s.depth
  remembers : c.Remembers t

/-- The first parse is at an arrow that it cannot read, or it has closed what the second
cannot close. -/
def Breaks (c : Comparison) (O : α → Prop) (a : α) (s' : ParserState) : Prop :=
  s'.kind = .punct .arrow ∨ (c.mode = true ∧ c.mode' = false ∧ s'.kind = .endOfInput ∧ O a)

/-- From `t` the second parse reads what the first has read when it came to `s'`. -/
def Outcome (c : Comparison) (O : α → Prop) (y : Parse α) (t : ParserState) (a : α)
    (s' : ParserState) : Prop :=
  (∃ t', CleanRun y t a t' ∧ c.Pair s' t') ∨ c.Breaks O a s'

/-- Clean runs with `k` levels are carried over to runs with `n`. -/
def Carries (c : Comparison) (k n : Nat) (s₀ : ParserState) (O : α → Prop) (x : Grammar → Parse α) :
    Prop :=
  ∀ {s t a s'}, s₀.SameView s → c.Pair s t → CleanRun (x (parseLevel k)) s a s' →
    c.Outcome O (x (parseLevel n)) t a s'

/-! ### Pairs -/

theorem Pair.of_follows (h : c.Pair s t) (hs : s.Follows s') (ht : t.Follows t')
    (hstream : t'.stream = s'.stream) (hr : c.Remembers t') : c.Pair s' t' where
  tokens := hs.tokens.trans h.tokens
  started := Nat.le_trans h.started hs.position
  mode := hs.recovering.trans h.mode
  memory := hs.remembers.trans h.memory
  mode' := ht.recovering.trans h.mode'
  memory' := ht.remembers.trans h.memory'
  view := ⟨hstream, ht.noIn.trans (h.view.2.trans hs.noIn.symm)⟩
  depth := by rw [ht.depth, hs.depth]; exact h.depth
  remembers := hr

theorem Pair.advance (h : c.Pair s t) : c.Pair s.advance t.advance :=
  h.of_follows s.follows_advance t.follows_advance h.view.advance.1 h.remembers

/-- The second parse may be at any depth that is less. -/
theorem Pair.withDepth (h : c.Pair s t) {d e : Nat} (hd : e ≤ d) :
    c.Pair { s with depth := d } { t with depth := e } := { h with depth := hd }

theorem Pair.withNoIn (h : c.Pair s t) (noIn : Bool) :
    c.Pair { s with noIn } { t with noIn } := { h with view := ⟨h.view.1, rfl⟩ }

theorem Pair.kind (h : c.Pair s t) : t.kind = s.kind := h.view.kind

/-! ### Outcomes -/

theorem Outcome.mono {O' : α → Prop} {y : Parse α} (h : c.Outcome O y t a s')
    (hO : ∀ a, O a → O' a) : c.Outcome O' y t a s' := by
  rcases h with h | h | ⟨h₁, h₂, h₃, h₄⟩
  · exact .inl h
  · exact .inr (.inl h)
  · exact .inr (.inr ⟨h₁, h₂, h₃, hO a h₄⟩)

/-- The second parse may have come to `u` from `t` first. -/
theorem Outcome.of_eq {y y' : Parse α} {u : ParserState} (h : c.Outcome O y u a s')
    (he : y' t = y u) (hf : t.faults = u.faults) : c.Outcome O y' t a s' := by
  rcases h with ⟨t', hrun, hp⟩ | h
  · exact .inl ⟨t', hrun.of_eq he.symm hf, hp⟩
  · exact .inr h

/-- Where the first parse goes on to read a mark, the second has read the same. -/
theorem Outcome.carried {y : Parse α} (h : c.Outcome O y t a s') (harrow : s'.kind ≠ .punct .arrow)
    (hend : s'.kind ≠ .endOfInput) : ∃ t', CleanRun y t a t' ∧ c.Pair s' t' := by
  rcases h with h | h | ⟨-, -, h, -⟩
  · exact h
  · exact absurd h harrow
  · exact absurd h hend

theorem Breaks.isStuck (h : c.Breaks O a s') : s'.IsStuck := by
  rcases h with h | ⟨-, -, h, -⟩
  · exact .inr h
  · exact .inl h

/-- A parse that breaks off stays broken off, whatever is built on it. -/
theorem Breaks.bind {k : Nat} {O' : β → Prop} {f : α → Grammar → Parse β} {b : β} {u v : ParserState}
    (hm : u.stream.tokens = c.tokens) (hr : u.recovering = c.mode) (h : c.Breaks O a u)
    (hf : Built c.last u O' (f a)) (hO : KeepsOpen c.last O O' f)
    (hrun : CleanRun (f a (parseLevel k)) u b v) : c.Breaks O' b v := by
  have hstream := hf.sticks (.rfl u) h.isStuck hrun
  have hkind : v.kind = u.kind := by rw [ParserState.kind, ParserState.current, hstream]; rfl
  rcases h with h | ⟨h₁, h₂, h₃, h₄⟩
  · exact .inl (hkind.trans h)
  · refine .inr ⟨h₁, h₂, hkind.trans h₃, ?_⟩
    exact hO _ (fun q s hs => parseLevel_refuses (.inl hs) k q) a u b v h₄ (hr.trans h₁) h₃
      (c.ends u hm h₃) hrun.1

/-! ### What carries over -/

namespace Carries

variable {k n : Nat} {s₀ : ParserState} {O' : β → Prop} {x y : Grammar → Parse α}

theorem pure (a : α) : c.Carries k n s₀ O fun _ => Pure.pure a := by
  intro s t b s' _ hp hrun
  obtain ⟨rfl, rfl⟩ := hrun.of_pure
  exact .inl ⟨t, ⟨rfl, rfl⟩, hp⟩

theorem fail (e : ParseError) : c.Carries k n s₀ O fun _ => throw e := by
  intro s t a s' _ _ hrun
  cases hrun.1

theorem bind {f : α → Grammar → Parse β} (hx : Built c.last s₀ O x)
    (hf : ∀ a u, Built c.last u O' (f a)) (hO : KeepsOpen c.last O O' f) (ihx : c.Carries k n s₀ O x)
    (ihf : ∀ a u, c.Carries k n u O' (f a)) : c.Carries k n s₀ O' fun g => x g >>= fun a => f a g := by
  intro s t b s' hs hp hrun
  have hg := parseLevel_proceeds k
  obtain ⟨a, u, hu, hrun⟩ := hrun.of_bind (hx.proceeds hg s hs)
    fun a u => (hf a u).proceeds hg u (.rfl u)
  have hfollows := (hx.proceeds hg s hs).ok hu.1
  rcases ihx hs hp hu with ⟨v, hv, hpu⟩ | hbreaks
  · rcases ihf a u (.rfl u) hpu hrun with ⟨t', ht', hp'⟩ | hbreaks
    · exact .inl ⟨t', ⟨(bind_of_ok hv.1).trans ht'.1, ht'.2.trans hv.2⟩, hp'⟩
    · exact .inr hbreaks
  · exact .inr (hbreaks.bind (hfollows.tokens.trans hp.tokens) (hfollows.recovering.trans hp.mode)
      (hf a u) hO hrun)

theorem same (hxy : ∀ g t, s₀.SameView t → x g t = y g t) (ih : c.Carries k n s₀ O y) :
    c.Carries k n s₀ O x := by
  intro s t a s' hs hp hrun
  exact (ih hs hp (hrun.of_eq (hxy _ s hs) rfl)).of_eq (hxy _ t (hs.trans hp.view)) rfl

theorem weaken {O' : α → Prop} (hO : ∀ a, O a → O' a) (ih : c.Carries k n s₀ O x) :
    c.Carries k n s₀ O' x := fun hs hp hrun => (ih hs hp hrun).mono hO

theorem next {f : Token → Grammar → Parse α} (ih : c.Carries k n s₀.advance O (f s₀.current)) :
    c.Carries k n s₀ O fun g => Parse.next >>= fun a => f a g := by
  intro s t a s' hs hp hrun
  have hf : CleanRun (f s₀.current (parseLevel k)) s.advance a s' := by
    rw [← hs.current]
    exact hrun
  have ht : (Parse.next >>= fun a => f a (parseLevel n)) t = f s₀.current (parseLevel n) t.advance := by
    rw [← hs.current, ← hp.view.current]
    rfl
  exact (ih hs.advance hp.advance hf).of_eq ht rfl

theorem nextArrow {O : Token → Prop} :
    c.Carries k n s₀ O fun _ => Parse.next >>= fun _ => Parse.next := by
  intro s t a s' _ hp hrun
  cases hrun.1
  refine .inl ⟨t.advance.advance, ⟨?_, rfl⟩, hp.advance.advance⟩
  rw [← hp.view.advance.current]
  rfl

theorem nested (ih : c.Carries k n s₀ O x) : c.Carries k n s₀ O fun g => nested (x g) := by
  intro s t a s' hs hp hrun
  obtain ⟨hd, u, hu, rfl⟩ := hrun.of_nested
  have hdepth := hp.depth
  rcases ih (s := { s with depth := s.depth + 1 }) (t := { t with depth := t.depth + 1 }) hs
    (hp.withDepth (by omega)) hu with ⟨v, hv, hp'⟩ | hbreaks
  · have hdepth' := hp'.depth
    exact .inl ⟨_, ⟨nested_of_ok (by omega) hv.1, hv.2⟩, hp'.withDepth (by omega)⟩
  · exact .inr hbreaks

theorem withNoIn (noIn : Bool) (ih : c.Carries k n { s₀ with noIn } O x) :
    c.Carries k n s₀ O fun g => withNoIn noIn (x g) := by
  intro s t a s' hs hp hrun
  obtain ⟨u, hu, rfl⟩ := hrun.of_withNoIn
  rcases ih (s := { s with noIn }) (t := { t with noIn }) ⟨hs.1, rfl⟩ (hp.withNoIn noIn) hu with
    ⟨v, hv, hp'⟩ | hbreaks
  · refine .inl ⟨{ v with noIn := t.noIn }, ⟨?_, hv.2⟩, ?_⟩
    · dsimp only
      rw [Parse.withNoIn, hv.1]
    · rw [hp.view.2]
      exact hp'.withNoIn _
  · exact .inr hbreaks

theorem closeBrace : c.Carries k n s₀ (c.last < ·) fun _ => closeBrace := by
  intro s t stop s' _ hp hrun
  rcases closeBrace_ok.1 hrun.1 with ⟨hs, rfl, rfl⟩ | ⟨-, hbrace, rfl, rfl⟩
  · rw [Bool.and_eq_true] at hs
    have hend : s'.kind = .endOfInput := beq_iff_eq.1 hs.2
    cases ht : t.recovering with
    | true =>
      have ht : (t.recovering && t.atEnd) = true := by
        rw [ht, Bool.true_and]
        exact beq_iff_eq.2 (hp.kind.trans hend)
      exact .inl ⟨t, ⟨closeBrace_ok.2 (.inl ⟨ht, by rw [hp.view.current], rfl⟩), rfl⟩, hp⟩
    | false =>
      refine .inr (.inr ⟨hp.mode ▸ hs.1, hp.mode' ▸ ht, hend, ?_⟩)
      rw [c.ends s' hp.tokens hend]
      exact Nat.lt_succ_self _
  · have hbrace' : t.kind = .punct .closeBrace := hp.kind.trans hbrace
    have ht : (t.recovering && t.atEnd) = false := by
      have : t.atEnd = false := by
        change (t.kind == .endOfInput) = false
        rw [hbrace']
        rfl
      rw [this, Bool.and_false]
    exact .inl ⟨t.advance,
      ⟨closeBrace_ok.2 (.inr ⟨ht, hbrace', by rw [hp.view.current], rfl⟩), rfl⟩, hp.advance⟩

theorem listedStatement (ih : c.Carries k n s₀ (Node.Open c.last) fun g => g .statement) :
    c.Carries k n s₀ (fun o => AnyOpen c.last o.toList) listedStatement := by
  intro s t o s' hs hp hrun
  obtain ⟨node, rfl, hnode⟩ := hrun.of_listedStatement (parseLevel_proceeds k)
  rcases ih hs hp hnode with ⟨t', ht', hp'⟩ | h | ⟨h₁, h₂, h₃, h₄⟩
  · exact .inl ⟨t', .listedStatement ht', hp'⟩
  · exact .inr (.inl h)
  · exact .inr (.inr ⟨h₁, h₂, h₃, node, by simp, h₄⟩)

theorem listedElement (hx : Built c.last s₀ (fun _ => True) classElement)
    (ih : c.Carries k n s₀ (fun _ => True) classElement) :
    c.Carries k n s₀ (fun _ => True) listedElement := by
  intro s t o s' hs hp hrun
  rcases hrun.of_listedElement (hx.proceeds (parseLevel_proceeds k) s hs) with
    ⟨hsemi, rfl, rfl⟩ | ⟨hsemi, hrun⟩
  · refine .inl ⟨t.advance, ⟨?_, rfl⟩, hp.advance⟩
    exact bind_of_ok (nextMark_of_true ((hp.view.atMark _).trans hsemi))
  · rcases ih hs hp hrun with ⟨t', ht', hp'⟩ | hbreaks
    · exact .inl ⟨t', .listedElement ((hp.view.atMark _).trans hsemi) ht', hp'⟩
    · exact .inr hbreaks

end Carries

end Comparison

end Typeahead
