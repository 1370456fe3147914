/-
# Productions read a token

A production that is built begins with a step that reads a token: it has read at least one if it
succeeds, and before it calls on another production. So the place strictly moves on, a loop over
productions ends before it has taken as many rounds as there are tokens, and productions call on
each other no more often than that.

Key definitions: `ParserState.Closed`, `Reads`, `Begins`.
Key theorems: `ParserState.position_lt_advance`, `Begins.bind`, `Begins.chooseArrow`.
-/
import Typeahead.Proofs.Parse.Local

namespace Typeahead

open Parse Grammar

variable {ι α β : Type}

/-- The last token is the end of the input. -/
def ParserState.Closed (s : ParserState) : Prop :=
  ∀ h : s.stream.lastIndex < s.stream.tokens.size, s.stream.tokens[s.stream.lastIndex].kind = .endOfInput

theorem ParserState.Closed.of_tokens {s t : ParserState} (h : s.Closed)
    (ht : t.stream.tokens = s.stream.tokens) : t.Closed := by
  obtain ⟨⟨tokens, p, hp⟩, d, r, noIn, fs, ra, fa⟩ := t
  cases ht
  exact h

/-- Every token but the end of the input can be left behind. -/
theorem ParserState.position_lt_advance {s : ParserState} (h : s.Closed) (hs : s.kind ≠ .endOfInput) :
    s.position < s.advance.position := by
  have hpos : s.position < s.stream.lastIndex := by
    by_contra hge
    refine hs ?_
    have hmin : min (s.position + 0) s.stream.lastIndex = s.stream.lastIndex := by omega
    have hlast : s.stream.lastIndex < s.stream.tokens.size := by
      have := s.stream.nonempty
      rw [TokenStream.lastIndex]
      omega
    have hcurrent : s.current = s.stream.tokens[s.stream.lastIndex] := by
      rw [current, TokenStream.peek, TokenStream.peekAhead]
      congr 1
    rw [kind, hcurrent]
    exact h hlast
  have hadvance : s.advance.stream = { s.stream with position := s.stream.position + 1 } := if_pos hpos
  rw [position, position, hadvance]
  exact Nat.lt_succ_self _

/-- If it succeeds, the parse leaves the current token behind. -/
def Reads (x : Parse α) (s : ParserState) : Prop := ∀ a t, x s = .ok a t → s.position < t.position

/-- All productions read a token where the last is the end of the input. -/
def Grammar.Reads (g : Grammar) : Prop := ∀ q s, s.Closed → Typeahead.Reads (g q) s

/-- The parse is built, and reads a token first; until then it calls on nothing. -/
structure Begins (last : Nat) (s : ParserState) (O : α → Prop) (x : Grammar → Parse α) : Prop where
  built : Built last s O x
  reads : ∀ g : Grammar, g.Proceeds → g.Reads → ∀ t, s.SameView t → t.Closed → Reads (x g) t
  guards : ∀ g k : Grammar, g.Proceeds → g.Reads → ∀ t, s.SameView t → t.Closed → AgreeBeyond g k t →
    x g t = x k t

namespace Begins

variable {last : Nat} {s : ParserState} {O : α → Prop} {O' : β → Prop}

theorem bind {x : Grammar → Parse α} {f : α → Grammar → Parse β} (hx : Begins last s O x)
    (hf : ∀ a t, Built last t O' (f a)) (hO : KeepsOpen last O O' f) :
    Begins last s O' fun g => x g >>= fun a => f a g where
  built := .bind hx.built hf hO
  reads g hg hr t ht hc b u hrun := by
    obtain ⟨a, v, hv, hrun⟩ := bind_ok.1 hrun
    exact Nat.lt_of_lt_of_le (hx.reads g hg hr t ht hc a v hv)
      (((hf a v).proceeds hg v (.rfl v)).ok hrun).position
  guards g k hg hr t ht hc hk := bind_congr_run (hx.guards g k hg hr t ht hc hk) fun a v hv =>
    (hf a v).congr hg v (.rfl v) (hk.from ((hx.built.proceeds hg t ht).ok hv).ahead
      (hx.reads g hg hr t ht hc a v hv))

/-- The step that reads may come after one that need not, and calls on nothing. -/
theorem after {x : Parse α} {f : α → Grammar → Parse β} (hx : Built last s O fun _ => x)
    (hf : ∀ a t, Begins last t O' (f a)) (hO : KeepsOpen last O O' f) :
    Begins last s O' fun g => x >>= fun a => f a g where
  built := .bind hx (fun a t => (hf a t).built) hO
  reads g hg hr t ht hc b u hrun := by
    obtain ⟨a, v, hv, hrun⟩ := bind_ok.1 hrun
    have hfollows := (hx.proceeds hg t ht).ok hv
    exact Nat.lt_of_le_of_lt hfollows.position
      ((hf a v).reads g hg hr v (.rfl v) (hc.of_tokens hfollows.tokens) b u hrun)
  guards g k hg hr t ht hc hk := bind_congr_run (.refl _) fun a v hv =>
    have hfollows := (hx.proceeds hg t ht).ok hv
    (hf a v).guards g k hg hr v (.rfl v) (hc.of_tokens hfollows.tokens) (hk.later hfollows.ahead)

theorem step {x : Grammar → Parse α} {f : α → Grammar → Parse β} (hx : Begins last s (fun _ => False) x)
    (hf : ∀ a t, Built last t O' (f a)) : Begins last s O' fun g => x g >>= fun a => f a g :=
  .bind hx hf .closed

theorem same {x y : Grammar → Parse α} (hxy : ∀ g t, s.SameView t → x g t = y g t)
    (hy : Begins last s O y) : Begins last s O x where
  built := .same hxy hy.built
  reads g hg hr t ht hc a u hrun := hy.reads g hg hr t ht hc a u ((hxy g t ht).symm.trans hrun)
  guards g k hg hr t ht hc hk :=
    (hxy g t ht).trans ((hy.guards g k hg hr t ht hc hk).trans (hxy k t ht).symm)

theorem look {f : ParserState → Grammar → Parse α}
    (hf : ∀ depth recovering faults remembersArrows failedArrows,
      f { s with depth, recovering, faults, remembersArrows, failedArrows } = f s)
    (h : Begins last s O (f s)) : Begins last s O fun g => get >>= fun t => f t g :=
  .same (fun g t ht => by
    obtain ⟨stream, d, r, noIn, fs, ra, fa⟩ := t
    obtain ⟨rfl, rfl⟩ := ht
    exact congrFun (congrFun (hf d r fs ra fa) g) _) h

theorem offset {f : Nat → Grammar → Parse α} (h : Begins last s O (f s.offset)) :
    Begins last s O fun g => Parse.offset >>= fun a => f a g :=
  .same (fun g t ht => by
    obtain ⟨stream, d, r, noIn, fs, ra, fa⟩ := t
    obtain ⟨rfl, rfl⟩ := ht
    rfl) h

theorem ite {c : Prop} [Decidable c] {x y : Grammar → Parse α}
    (hx : c → Begins last s O x) (hy : ¬ c → Begins last s O y) :
    Begins last s O fun g => if c then x g else y g := by
  by_cases h : c
  · simpa only [if_pos h] using hx h
  · simpa only [if_neg h] using hy h

theorem fail (e : ParseError) (he : e.position = s.offset) : Begins last s O fun _ => throw e where
  built := .fail e he
  reads _ _ _ _ _ _ _ _ hrun := by cases hrun
  guards _ _ _ _ _ _ _ _ := rfl

theorem nested {x : Grammar → Parse α} (h : Begins last s O x) :
    Begins last s O fun g => nested (x g) where
  built := .nested h.built
  reads g hg hr t ht hc a u hrun := by
    obtain ⟨-, v, hx, rfl⟩ := nested_ok hrun
    have hlt := h.reads g hg hr { t with depth := t.depth + 1 } ht hc _ _ hx
    exact hlt
  guards g k hg hr t ht hc hk :=
    nested_congr (h.guards g k hg hr _ ht hc (hk.later (.of_stream rfl)))

/-! ### Reading a token -/

/-- A parse that reads one token that is not the end of the input, or fails. -/
theorem of_advance {x : Parse α} (h : Built last s O fun _ => x)
    (hx : ∀ t a u, s.SameView t → x t = .ok a u → t.kind ≠ .endOfInput ∧ u = t.advance) :
    Begins last s O fun _ => x where
  built := h
  reads _ _ _ t ht hc a u hrun := by
    obtain ⟨hk, rfl⟩ := hx t a u ht hrun
    exact t.position_lt_advance hc hk
  guards _ _ _ _ _ _ _ _ := rfl

theorem read {O : Token → Prop} (h : ¬ s.IsStuck) : Begins last s O fun _ => Parse.next :=
  .of_advance (.read h) fun t _ _ ht hrun => by
    cases hrun
    exact ⟨fun hk => h (ht.isStuck.1 (.inl hk)), rfl⟩

theorem next {f : Token → Grammar → Parse α} (h : ¬ s.IsStuck) (hf : Built last s.advance O (f s.current)) :
    Begins last s O fun g => Parse.next >>= fun a => f a g where
  built := .next h hf
  reads g hg _ t ht hc b u hrun := by
    have hk : t.kind ≠ .endOfInput := fun hk => h (ht.isStuck.1 (.inl hk))
    have hrun : f t.current g t.advance = .ok b u := hrun
    rw [ht.current] at hrun
    exact Nat.lt_of_lt_of_le (t.position_lt_advance hc hk)
      ((hf.proceeds hg t.advance ht.advance).ok hrun).position
  guards g k hg _ t ht hc hk := bind_congr_run (.refl _) fun a u hu => by
    cases hu
    rw [ht.current]
    refine hf.congr hg t.advance ht.advance (hk.from t.follows_advance.ahead (t.position_lt_advance hc ?_))
    exact fun hk => h (ht.isStuck.1 (.inl hk))

theorem nextArrow {O : Token → Prop} (h : ¬ s.IsStuck) (ha : s.advance.kind = .punct .arrow) :
    Begins last s O fun _ => Parse.next >>= fun _ => Parse.next where
  built := .nextArrow h ha
  reads _ _ _ t ht hc b u hrun := by
    cases hrun
    have hk : t.kind ≠ .endOfInput := fun hk => h (ht.isStuck.1 (.inl hk))
    exact Nat.lt_of_lt_of_le (t.position_lt_advance hc hk) t.advance.follows_advance.position
  guards _ _ _ _ _ _ _ _ := rfl

theorem expectKind {kind : TokenKind} {O : Token → Prop} (he : kind ≠ .endOfInput)
    (ha : kind ≠ .punct .arrow) : Begins last s O fun _ => expectKind kind :=
  .of_advance (.expectKind he ha) fun t _ _ _ hrun => by
    obtain ⟨hk, -, rfl⟩ := expectKind_ok hrun
    exact ⟨hk ▸ he, rfl⟩

theorem expect {mark : Punctuator} {O : Token → Prop} (h : mark ≠ .arrow) :
    Begins last s O fun _ => expect mark :=
  expectKind (by simp) (by simpa using h)

theorem expectReserved {word : String} {O : Token → Prop} :
    Begins last s O fun _ => expectReserved word :=
  .of_advance .expectReserved fun t _ _ _ hrun => by
    rw [Parse.expectReserved] at hrun
    split at hrun <;> rename_i hk <;> cases hrun
    exact ⟨fun h => ParserState.not_isStuck_of_atReserved hk (.inl h), rfl⟩

/-! ### Choices -/

/-- Whichever it is, an arrow or a parenthesis is read. -/
theorem chooseArrow {inner : Grammar → Parse ι} {rest : ι → Grammar → Parse α}
    {commit : List Node → Grammar → Parse α} (hi : Itemized inner)
    (hinner : ∀ t, Built last t (fun _ => True) inner)
    (hparams : ∀ rounds t, Built last t (fun _ => True) fun g => parametersFrom g rounds)
    (hrest : ∀ x t, Built last t O (rest x)) (hcommit : ∀ params t, Built last t O (commit params)) :
    Begins last s O fun g => chooseArrow g (inner g) (fun x => rest x g) fun params => commit params g where
  built := .chooseArrow hi hinner hparams hrest hcommit
  reads g hg _ t ht hc b u hrun := by
    obtain ⟨r, v, hv, hrun⟩ := bind_ok.1 hrun
    have hfollows := (Proceeds.arrowParameters? (.parameterList (s := t)
      fun rounds w => (hparams rounds w).proceeds hg w (.rfl w))).ok hv
    have hread : ∀ {mark : Punctuator} {k : Parse α}, (∀ w, Proceeds k w) →
        (Parse.expect mark >>= fun _ => k) v = .ok b u → v.position < u.position := by
      intro mark k hk hrun
      obtain ⟨_, w, hw, hrun⟩ := bind_ok.1 hrun
      obtain ⟨hmark, -, rfl⟩ := expect_ok hw
      exact Nat.lt_of_lt_of_le (v.position_lt_advance (hc.of_tokens hfollows.tokens) (by rw [hmark]; simp))
        ((hk _).ok hrun).position
    refine Nat.lt_of_le_of_lt hfollows.position ?_
    cases r with
    | some params => exact hread (fun w => (hcommit params w).proceeds hg w (.rfl w)) hrun
    | none =>
      refine hread (fun w => ?_) hrun
      exact (Proceeds.withNoIn ((hinner _).proceeds hg _ (.rfl _))).bind fun x _ _ =>
        (Proceeds.expectKind _).bind fun _ y _ => (hrest x y).proceeds hg y (.rfl y)
  guards g k hg _ t ht hc hk := by
    refine chooseArrow_congr (arrowParameters?_congr fun hmark rounds => ?_) (fun hu hv => ?_)
      (fun u => (hinner u).proceeds hg u (.rfl u)) (fun u => (hinner u).congr hg u (.rfl u))
      (fun x u => (hrest x u).congr hg u (.rfl u)) fun params u => (hcommit params u).congr hg u (.rfl u)
    · refine (hparams rounds _).congr hg _ (.rfl _) (hk.from t.follows_advance.ahead ?_)
      exact t.position_lt_advance hc fun hend => by rw [t.atMark_of_end hend] at hmark; cases hmark
    · rename_i u _ _ _
      have hfollows := (Proceeds.arrowParameters? (.parameterList fun rounds w =>
        (hparams rounds w).proceeds hg w (.rfl w))).ok hu
      obtain ⟨hmark, -, rfl⟩ := expect_ok hv
      exact hk.from (hfollows.trans u.follows_advance).ahead (Nat.lt_of_le_of_lt hfollows.position
        (u.position_lt_advance (hc.of_tokens hfollows.tokens) (by rw [hmark]; simp)))

end Begins

end Typeahead
