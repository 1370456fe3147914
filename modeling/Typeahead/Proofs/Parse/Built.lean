/-
# How a production is built

Whatever a production does it does in a few kinds of steps: it reads a token that begins
something, calls on another production, closes a brace, reads a statement or class element of
a list, or tries the parameters of an arrow function and, if there are none, reads an
expression in parentheses instead. `Built` says so of a production that starts where the
tokens are those of a state. What holds of every such step and is kept when steps are put
together holds of the grammar.

A value may be open: the input broke off in it. `Built` follows which values are, as an
open value is never dropped without being part of another.

Key definitions: `ReadsItems`, `Itemized`, `chooseArrow`, `KeepsOpen`, `Built`.
Key theorems: `Built.look`, `Built.expect`, `Built.collectUntil`.
-/
import Typeahead.Proofs.Parse.Run
import Typeahead.Proofs.Span

namespace Typeahead

open Parse Grammar

variable {ι α β : Type}

/-! ### Lists in parentheses -/

/-- A clean run over an item of a list in parentheses: an expression, or `...` and one. -/
inductive ReadsItem (g : Grammar) (s t : ParserState) : Prop where
  | plain {n : Node} : CleanRun (g .assignment) s n t → ReadsItem g s t
  | spread {n : Node} : s.kind = .punct .ellipsis → CleanRun (g .assignment) s.advance n t →
      ReadsItem g s t

/-- A clean run over the items of a list, up to the parenthesis that closes it. -/
inductive ReadsItems (g : Grammar) : ParserState → ParserState → Prop where
  | none {s : ParserState} : s.kind = .punct .closeParen → ReadsItems g s s
  | last {s t : ParserState} : ReadsItem g s t → t.kind = .punct .closeParen → ReadsItems g s t
  | more {s u t : ParserState} : ReadsItem g s u → u.kind = .punct .comma →
      ReadsItems g u.advance t → ReadsItems g s t

/-- The parse reads such a list wherever it comes to a closing parenthesis. -/
def Itemized (inner : Grammar → Parse ι) : Prop :=
  ∀ g : Grammar, g.Proceeds → ∀ s x t, CleanRun (inner g) s x t → t.kind = .punct .closeParen →
    ReadsItems g s t

/-- An arrow function whose parameters begin here, or else what `inner` reads between
the parentheses, and `rest` after it. -/
def chooseArrow (g : Grammar) (inner : Parse ι) (rest : ι → Parse α)
    (commit : List Node → Parse α) : Parse α := do
  match ← arrowParameters? g with
  | some params =>
    let _ ← expect .arrow
    commit params
  | none =>
    let _ ← expect .openParen
    let x ← allowIn inner
    let _ ← expect .closeParen
    rest x

/-! ### Steps -/

/-- Out of a value that is open at the end of the input `f` makes one that is open. -/
def KeepsOpen (last : Nat) (O : α → Prop) (O' : β → Prop) (f : α → Grammar → Parse β) : Prop :=
  ∀ g : Grammar, (∀ q s, s.kind = .endOfInput → ∃ e t, g q s = .error e t) →
    ∀ a s b t, O a → s.recovering = true → s.kind = .endOfInput → s.current.stop = last →
      f a g s = .ok b t → O' b

/-- The parse is built from the steps of the grammar where the tokens are those of a state;
`O` holds of its result if the input, whose end is at `last`, breaks off in it. -/
inductive Built (last : Nat) : ParserState → {α : Type} → (α → Prop) → (Grammar → Parse α) → Prop where
  | pure {s : ParserState} {α : Type} {O : α → Prop} (a : α) : Built last s O fun _ => pure a
  | bind {s : ParserState} {α β : Type} {O : α → Prop} {O' : β → Prop} {x : Grammar → Parse α}
      {f : α → Grammar → Parse β} : Built last s O x → (∀ a t, Built last t O' (f a)) →
      KeepsOpen last O O' f → Built last s O' fun g => x g >>= fun a => f a g
  | same {s : ParserState} {α : Type} {O : α → Prop} {x y : Grammar → Parse α} :
      (∀ g t, s.SameView t → x g t = y g t) → Built last s O y → Built last s O x
  | weaken {s : ParserState} {α : Type} {O O' : α → Prop} {x : Grammar → Parse α} :
      (∀ a, O a → O' a) → Built last s O x → Built last s O' x
  | next {s : ParserState} {α : Type} {O : α → Prop} {f : Token → Grammar → Parse α} :
      ¬ s.IsStuck → Built last s.advance O (f s.current) → Built last s O fun g => next >>= fun a => f a g
  | nextArrow {s : ParserState} {O : Token → Prop} : ¬ s.IsStuck →
      s.advance.kind = .punct .arrow → Built last s O fun _ => next >>= fun _ => next
  | fail {s : ParserState} {α : Type} {O : α → Prop} (e : ParseError) : e.position = s.offset →
      Built last s O fun _ => throw e
  | call {s : ParserState} (q : Production) : Built last s (Node.Open last) fun g => g q
  | nested {s : ParserState} {α : Type} {O : α → Prop} {x : Grammar → Parse α} :
      Built last s O x → Built last s O fun g => nested (x g)
  | withNoIn {s : ParserState} {α : Type} {O : α → Prop} {x : Grammar → Parse α} (noIn : Bool) :
      Built last { s with noIn } O x → Built last s O fun g => withNoIn noIn (x g)
  | closeBrace {s : ParserState} : Built last s (last < ·) fun _ => closeBrace
  | listedStatement {s : ParserState} :
      Built last s (fun o => AnyOpen last o.toList) listedStatement
  | listedElement {s : ParserState} : (∀ t, Built last t (fun _ => True) classElement) →
      Built last s (fun _ => True) listedElement
  | chooseArrow {s : ParserState} {ι α : Type} {O : α → Prop} {inner : Grammar → Parse ι}
      {rest : ι → Grammar → Parse α} {commit : List Node → Grammar → Parse α} : Itemized inner →
      (∀ t, Built last t (fun _ => True) inner) →
      (∀ rounds t, Built last t (fun _ => True) fun g => parametersFrom g rounds) →
      (∀ x t, Built last t O (rest x)) → (∀ params t, Built last t O (commit params)) →
      Built last s O fun g => chooseArrow g (inner g) (fun x => rest x g) fun params => commit params g

/-! ### Nothing is read at the end of the input -/

theorem ParserState.atMark_of_end {s : ParserState} (h : s.kind = .endOfInput) (mark : Punctuator) :
    s.atMark mark = false := by
  rw [ParserState.atMark, h]
  rfl

theorem ParserState.atReserved_of_end {s : ParserState} (h : s.kind = .endOfInput) (word : String) :
    s.atReserved word = false := by
  have h' : s.current.kind = .endOfInput := h
  rw [ParserState.atReserved, Token.isReserved, h']
  rfl

namespace KeepsOpen

variable {last : Nat} {O : α → Prop} {O' : β → Prop}

theorem fails {f : α → Grammar → Parse β}
    (h : ∀ a g s, s.kind = .endOfInput → ∃ e t, f a g s = .error e t) : KeepsOpen last O O' f := by
  intro g _ a s t b _ _ hs _ hrun
  obtain ⟨e, u, he⟩ := h a g s hs
  rw [he] at hrun
  cases hrun

theorem expectKind {kind : TokenKind} (hk : kind ≠ .endOfInput) {f : α → Token → Grammar → Parse β} :
    KeepsOpen last O O' fun a g => expectKind kind >>= fun b => f a b g :=
  fails fun a g s hs => ⟨_, _, bind_of_error (by
    rw [Parse.expectKind, hs, if_neg (by simpa using hk.symm)])⟩

theorem expect {mark : Punctuator} {f : α → Token → Grammar → Parse β} :
    KeepsOpen last O O' fun a g => expect mark >>= fun b => f a b g :=
  expectKind (by simp)

theorem expectReserved {word : String} {f : α → Token → Grammar → Parse β} :
    KeepsOpen last O O' fun a g => expectReserved word >>= fun b => f a b g :=
  fails fun a g s hs => ⟨_, _, bind_of_error (by
    rw [Parse.expectReserved, if_neg (by simp [ParserState.atReserved_of_end hs])])⟩

theorem pure {f : α → β} (h : ∀ a, O a → O' (f a)) :
    KeepsOpen last O O' fun a _ => Pure.pure (f a) := by
  intro g _ a s t b ha _ _ _ hrun
  cases hrun
  exact h a ha

theorem finish {start : Nat} {kind : α → NodeKind} (h : ∀ a r, O a → Node.Open last ⟨r, kind a⟩) :
    KeepsOpen last O (Node.Open last) fun a _ => finish start (kind a) := by
  intro g _ a s t b ha _ _ _ hrun
  cases hrun
  exact h a _ ha

theorem look {f : ParserState → α → Grammar → Parse β}
    (h : ∀ s, s.kind = .endOfInput → KeepsOpen last O O' (f s)) :
    KeepsOpen last O O' fun a g => get >>= fun s => f s a g :=
  fun g hg a s t b ha hr hs hl hrun => h s hs g hg a s t b ha hr hs hl hrun

theorem offset {f : Nat → α → Grammar → Parse β} (h : ∀ n, KeepsOpen last O O' (f n)) :
    KeepsOpen last O O' fun a g => Parse.offset >>= fun n => f n a g :=
  fun g hg a s t b ha hr hs hl hrun => h s.offset g hg a s t b ha hr hs hl hrun

theorem semicolon {f : α → Unit → Grammar → Parse β} (h : KeepsOpen last O O' fun a g => f a () g) :
    KeepsOpen last O O' fun a g => semicolon >>= fun b => f a b g := by
  intro g hg a s t b ha hr hs hl hrun
  have hsemi : Parse.semicolon s = .ok () s := by
    have hend : s.atEnd = true := beq_iff_eq.2 hs
    rw [Parse.semicolon, if_neg (by simp [s.atMark_of_end hs]),
      if_pos (by simp [ParserState.atImpliedSemicolon, hend])]
  exact h g hg a s t b ha hr hs hl ((bind_of_ok hsemi).symm.trans hrun)

/-- At the end of the input the value stays as it is. -/
theorem stay {x : α → Grammar → Parse α}
    (h : ∀ a g s, s.kind = .endOfInput → x a g s = .ok a s) : KeepsOpen last O O x := by
  intro g _ a s t b ha _ hs _ hrun
  cases (h a g s hs).symm.trans hrun
  exact ha

theorem stay_bind {x : α → Grammar → Parse α} {f : α → Grammar → Parse β}
    (hx : ∀ a g s, s.kind = .endOfInput → x a g s = .ok a s) (h : KeepsOpen last O O' f) :
    KeepsOpen last O O' fun a g => x a g >>= fun b => f b g :=
  fun g hg a s t b ha hr hs hl hrun =>
    h g hg a s t b ha hr hs hl ((bind_of_ok (hx a g s hs)).symm.trans hrun)

/-- Nothing is said of the result. -/
theorem any {f : α → Grammar → Parse β} : KeepsOpen last O (fun _ => True) f :=
  fun _ _ _ _ _ _ _ _ _ _ _ => trivial

/-- The value is never open. -/
theorem closed {f : α → Grammar → Parse β} : KeepsOpen last (fun _ => False) O' f :=
  fun _ _ _ _ _ _ h => h.elim

theorem closeBrace {f : α → Nat → β} (h : ∀ a stop, last < stop → O' (f a stop)) :
    KeepsOpen last O O' fun a _ => closeBrace >>= fun stop => Pure.pure (f a stop) := by
  intro g _ a s t b _ hr hs hl hrun
  have hend : s.atEnd = true := beq_iff_eq.2 hs
  have hstop : Grammar.closeBrace s = .ok (s.current.stop + 1) s :=
    closeBrace_ok.2 (.inl ⟨by rw [hr, hend]; rfl, rfl, rfl⟩)
  cases (bind_of_ok hstop).symm.trans hrun
  exact h a _ (by omega)

theorem nextIf {p : ParserState → Bool} (hp : ∀ s, s.kind = .endOfInput → p s = false)
    {f : α → Bool → Grammar → Parse β} (h : KeepsOpen last O O' fun a g => f a false g) :
    KeepsOpen last O O' fun a g => nextIf p >>= fun b => f a b g := by
  intro g hg a s t b ha hr hs hl hrun
  have hp' : Parse.nextIf p s = .ok false s := by rw [Parse.nextIf, hp s hs]; rfl
  exact h g hg a s t b ha hr hs hl ((bind_of_ok hp').symm.trans hrun)

theorem nextMark {mark : Punctuator} {f : α → Bool → Grammar → Parse β}
    (h : KeepsOpen last O O' fun a g => f a false g) :
    KeepsOpen last O O' fun a g => nextMark mark >>= fun b => f a b g :=
  nextIf (fun _ hs => ParserState.atMark_of_end hs mark) h

end KeepsOpen

namespace Built

variable {last : Nat} {s : ParserState} {O : α → Prop} {O' : β → Prop}

/-! ### What is looked at -/

/-- A parse that looks only at the tokens of its state. -/
theorem look {f : ParserState → Grammar → Parse α}
    (hf : ∀ depth recovering faults remembersArrows failedArrows,
      f { s with depth, recovering, faults, remembersArrows, failedArrows } = f s)
    (h : Built last s O (f s)) : Built last s O fun g => get >>= fun t => f t g := by
  refine .same (fun g t ht => ?_) h
  obtain ⟨stream, d, r, noIn, fs, ra, fa⟩ := t
  obtain ⟨rfl, rfl⟩ := ht
  exact congrFun (congrFun (hf d r fs ra fa) g) _

/-- A parse that first takes the offset of its state. -/
theorem offset {f : Nat → Grammar → Parse α} (h : Built last s O (f s.offset)) :
    Built last s O fun g => Parse.offset >>= fun a => f a g := by
  refine .same (fun g t ht => ?_) h
  obtain ⟨stream, d, r, noIn, fs, ra, fa⟩ := t
  obtain ⟨rfl, rfl⟩ := ht
  rfl

/-- A node that stops where the last token does. -/
theorem finish {O : Node → Prop} (start : Nat) (kind : NodeKind) :
    Built last s O fun _ => finish start kind :=
  .same (fun _ t ht => by
    obtain ⟨stream, d, r, noIn, fs, ra, fa⟩ := t
    obtain ⟨rfl, rfl⟩ := ht
    rfl) (.pure ⟨⟨start, max s.lastStop start⟩, kind⟩)

/-! ### Steps put together -/

/-- A step whose result is not kept, or is never open. -/
theorem step {x : Grammar → Parse α} {f : α → Grammar → Parse β}
    (hx : Built last s (fun _ => False) x) (hf : ∀ a t, Built last t O' (f a)) :
    Built last s O' fun g => x g >>= fun a => f a g :=
  .bind hx hf .closed

/-- A step under a function. -/
theorem map {x : Grammar → Parse α} {f : α → β} (hx : Built last s O x) (hO : ∀ a, O a → O' (f a)) :
    Built last s O' fun g => f <$> x g := by
  have hb : Built last s O' fun g => x g >>= fun a => Pure.pure (f a) :=
    .bind hx (fun a _ => .pure (f a)) fun g _ a s b t ha _ _ _ h => by
      cases h
      exact hO a ha
  exact .same (fun g t _ => by rw [map_eq_pure_bind]) hb

/-- The current token, whatever follows. -/
theorem read {O : Token → Prop} (h : ¬ s.IsStuck) : Built last s O fun _ => Parse.next :=
  .same (fun _ _ _ => by rw [bind_pure]) (.next (f := fun a _ => Pure.pure a) h (.pure _))

theorem mapSome {x : Grammar → Parse Node} (hx : Built last s (Node.Open last) x) :
    Built last s (fun o => AnyOpen last o.toList) fun g => some <$> x g :=
  map hx fun a h => ⟨a, by simp, h⟩

theorem someBind {x : Grammar → Parse Node} (hx : Built last s (Node.Open last) x) :
    Built last s (fun o => AnyOpen last o.toList) fun g => x g >>= fun n => Pure.pure (some n) :=
  .bind hx (fun n _ => .pure _) (.pure fun n h => ⟨n, by simp, h⟩)

/-- A choice that is already made. -/
theorem ite {c : Prop} [Decidable c] {x y : Grammar → Parse α}
    (hx : c → Built last s O x) (hy : ¬ c → Built last s O y) :
    Built last s O fun g => if c then x g else y g := by
  by_cases h : c
  · simpa only [if_pos h] using hx h
  · simpa only [if_neg h] using hy h

/-- A choice that is already made, and what follows in either case. -/
theorem iteBind {c : Prop} [Decidable c] {x y : Grammar → Parse α} {f : α → Grammar → Parse β}
    (hx : c → Built last s O x) (hy : ¬ c → Built last s O y)
    (hf : ∀ a t, Built last t O' (f a)) (hO : KeepsOpen last O O' f) :
    Built last s O' fun g => if c then x g >>= fun a => f a g else y g >>= fun a => f a g := by
  by_cases h : c
  · simpa only [if_pos h] using .bind (hx h) hf hO
  · simpa only [if_neg h] using .bind (hy h) hf hO

/-! ### Reading a token -/

/-- A token is read where `c` holds, and else `y` is done. -/
theorem token {x y : Grammar → Parse α} (c : Prop) [Decidable c] (f : Token → α)
    (hs : c → ¬ s.IsStuck)
    (hx : ∀ g t, s.SameView t → x g t = if c then (f <$> Parse.next) t else y g t)
    (hy : ¬ c → Built last s O y) : Built last s O x := by
  by_cases h : c
  · refine .same (fun g t ht => by rw [hx g t ht, if_pos h]) ?_
    exact map (O := fun _ => False) (read (hs h)) fun _ h => h.elim
  · exact .same (fun g t ht => by rw [hx g t ht, if_neg h]) (hy h)

theorem expectKind {kind : TokenKind} {O : Token → Prop} (he : kind ≠ .endOfInput)
    (ha : kind ≠ .punct .arrow) : Built last s O fun _ => expectKind kind :=
  token (y := fun _ => throw (s.unexpected kind)) (s.kind = kind) id
    (fun h => ParserState.not_isStuck h he ha)
    (fun _ t ht => by
      obtain ⟨stream, d, r, noIn, fs, ra, fa⟩ := t
      obtain ⟨rfl, rfl⟩ := ht
      simp only [Parse.expectKind, beq_iff_eq]
      rfl)
    fun _ => .fail _ rfl

theorem expect {mark : Punctuator} {O : Token → Prop} (h : mark ≠ .arrow) :
    Built last s O fun _ => expect mark :=
  expectKind (by simp) (by simpa using h)

theorem expectReserved {word : String} {O : Token → Prop} :
    Built last s O fun _ => expectReserved word :=
  token (y := fun _ => throw (s.unexpected .reserved)) (s.atReserved word = true) id
    ParserState.not_isStuck_of_atReserved
    (fun _ t ht => by
      obtain ⟨stream, d, r, noIn, fs, ra, fa⟩ := t
      obtain ⟨rfl, rfl⟩ := ht
      rfl)
    fun _ => .fail _ rfl

theorem bindingName {O : String → Prop} : Built last s O fun _ => bindingName :=
  token (y := fun _ => throw (s.unexpected .identifier)) (s.atBindingName = true) (·.text)
    (fun h => by
      rw [ParserState.atBindingName] at h
      rintro (h' | h') <;> rw [h'] at h <;> cases h)
    (fun _ t ht => by
      obtain ⟨stream, d, r, noIn, fs, ra, fa⟩ := t
      obtain ⟨rfl, rfl⟩ := ht
      rfl)
    fun _ => .fail _ rfl

theorem anyWord {O : String → Prop} : Built last s O fun _ => anyWord :=
  token (y := fun _ => throw (s.unexpected .identifier)) (s.kind.isWord = true) (·.text)
    (fun h => by rintro (h' | h') <;> rw [h'] at h <;> cases h)
    (fun _ t ht => by
      obtain ⟨stream, d, r, noIn, fs, ra, fa⟩ := t
      obtain ⟨rfl, rfl⟩ := ht
      rfl)
    fun _ => .fail _ rfl

theorem nextIf {p : ParserState → Bool} {O : Bool → Prop}
    (hp : ∀ depth recovering faults remembersArrows failedArrows,
      p { s with depth, recovering, faults, remembersArrows, failedArrows } = p s)
    (hs : p s = true → ¬ s.IsStuck) : Built last s O fun _ => nextIf p :=
  token (y := fun _ => Pure.pure false) (p s = true) (fun _ => true) hs
    (fun _ t ht => by
      obtain ⟨stream, d, r, noIn, fs, ra, fa⟩ := t
      obtain ⟨rfl, rfl⟩ := ht
      rw [Parse.nextIf, hp]
      rfl)
    fun _ => .pure false

theorem nextMark {mark : Punctuator} {O : Bool → Prop} (h : mark ≠ .arrow) :
    Built last s O fun _ => nextMark mark :=
  nextIf (fun _ _ _ _ _ => rfl) fun hs => ParserState.not_isStuck_of_atMark hs h

/-- The end of a statement is a semicolon, or it is implied and nothing is read. -/
theorem semicolon {O : Unit → Prop} : Built last s O fun _ => semicolon := by
  by_cases h : s.atMark .semicolon = true
  · refine token True (y := fun _ => Pure.pure ()) (fun _ => ()) (fun _ => ?_) (fun g t ht => ?_)
      fun h => absurd trivial h
    · exact ParserState.not_isStuck_of_atMark h (by simp)
    · rw [← ht.atMark] at h
      rw [Parse.semicolon, if_pos h, if_pos trivial]
      rfl
  · by_cases h' : s.atImpliedSemicolon = true
    · refine same (y := fun _ => Pure.pure ()) (fun g t ht => ?_) (.pure ())
      rw [← ht.atMark] at h
      rw [← ht.atImpliedSemicolon] at h'
      rw [Parse.semicolon, if_neg h, if_pos h']
      rfl
    · refine same (y := fun _ => throw (s.unexpected (.punct .semicolon))) (fun g t ht => ?_) (.fail _ rfl)
      rw [← ht.atMark] at h
      rw [← ht.atImpliedSemicolon] at h'
      rw [Parse.semicolon, if_neg h, if_neg h', ht.unexpected]
      rfl

/-! ### Loops -/

/-- The results of a step, as often as it is done. -/
theorem collect {done : ParserState → Bool} {step : Grammar → Parse (Option α)}
    {Oi : Option α → Prop} {Ol : List α → Prop}
    (hd : ∀ t u : ParserState, t.SameView u → done u = done t)
    (hs : ∀ t, done t = false → Built last t Oi step)
    (hi : ∀ o l, Oi o → Ol (o.toList ++ l)) (hl : ∀ (o : Option α) l, Ol l → Ol (o.toList ++ l)) :
    ∀ rounds s, Built last s Ol fun g => collect done (step g) rounds
  | 0, _ => .pure []
  | rounds + 1, s => by
    refine look (f := fun t g => if done t then Pure.pure [] else step g >>= fun item =>
      Parse.collect done (step g) rounds >>= fun items => Pure.pure (item.toList ++ items))
      (fun depth recovering faults remembersArrows failedArrows => ?_)
      (ite (fun _ => .pure []) fun h => ?_)
    · rw [hd s { s with depth, recovering, faults, remembersArrows, failedArrows } ⟨rfl, rfl⟩]
    · refine .bind (hs s (by simpa using h)) (fun item t => .bind (collect hd hs hi hl rounds t)
        (fun items u => .pure _) ?_) ?_
      · intro g _ items s t b hitems _ _ _ hrun
        cases hrun
        exact hl item items hitems
      · intro g _ item s t b hitem _ _ _ hrun
        obtain ⟨items, u, _, hrun⟩ := bind_ok.1 hrun
        cases hrun
        exact hi item items hitem

theorem collectUntil {done : ParserState → Bool} {step : Grammar → Parse (Option α)}
    {Oi : Option α → Prop} {Ol : List α → Prop}
    (hd : ∀ t u : ParserState, t.SameView u → done u = done t)
    (hs : ∀ t, done t = false → Built last t Oi step)
    (hi : ∀ o l, Oi o → Ol (o.toList ++ l)) (hl : ∀ (o : Option α) l, Ol l → Ol (o.toList ++ l)) :
    Built last s Ol fun g => collectUntil done (step g) :=
  look (fun _ _ _ _ _ => rfl) (collect hd hs hi hl _ _)

/-- A loop of whose results nothing is said. -/
theorem loop {done : ParserState → Bool} {step : Grammar → Parse (Option α)}
    (hd : ∀ t u : ParserState, t.SameView u → done u = done t)
    (hs : ∀ t, done t = false → Built last t (fun _ => True) step) :
    Built last s (fun _ => True) fun g => Parse.collectUntil done (step g) :=
  collectUntil hd hs (fun _ _ _ => trivial) fun _ _ _ => trivial

/-- A list of nodes. -/
theorem nodes {done : ParserState → Bool} {step : Grammar → Parse (Option Node)}
    (hd : ∀ t u : ParserState, t.SameView u → done u = done t)
    (hs : ∀ t, done t = false → Built last t (fun o => AnyOpen last o.toList) step) :
    Built last s (AnyOpen last) fun g => Parse.collectUntil done (step g) :=
  collectUntil hd hs
    (fun _ _ ⟨n, hn, ho⟩ => ⟨n, List.mem_append_left _ hn, ho⟩)
    fun _ _ ⟨n, hn, ho⟩ => ⟨n, List.mem_append_right _ hn, ho⟩

end Built

end Typeahead
