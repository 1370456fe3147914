/-
# Parses that keep the height

Whatever a production reads it never goes below the height at which it starts, and it ends at that
height, with one exception: where a class element was skipped on the way the height may be above. Of
such a place there is a trace, a fault behind the word `class`. `Level` says so of a parse from a
state. It also says what holds of the result, as far as the faults that are left belong to those of
the whole script: those of a parse that was tried in vain do not.

Key definitions: `ClassBehind`, `Level`, `Matched`.
Key theorems: `Level.bind`, `Level.braces`, `Level.statementOrSkip`.
-/
import Typeahead.Proofs.Braces.Height

namespace Typeahead

open Parse Grammar

variable {α β γ : Type}

/-- A class begins between two offsets. -/
def ClassBehind (tokens : Array Token) (start stop : Nat) : Prop :=
  ∃ token ∈ tokens, token.kind = .keyword .classWord ∧ start ≤ token.start ∧ token.start ≤ stop

theorem ClassBehind.mono {tokens : Array Token} {start start' stop : Nat} (h : ClassBehind tokens start stop)
    (hle : start' ≤ start) : ClassBehind tokens start' stop := by
  obtain ⟨token, hmem, hk, hstart, hstop⟩ := h
  exact ⟨token, hmem, hk, Nat.le_trans hle hstart, hstop⟩

/-- A fault that counts shows before where the parse is. -/
def Slipped (faults : List ParseError) (counts : Nat → Prop) (t : ParserState) : Prop :=
  ∃ fault ∈ faults, counts fault.position ∧ fault.position ≤ t.offset

/-- From the state the parse never goes below the height there, and ends at that height, unless a
fault that counts shows on the way. A fault counts behind every class that begins later on. Where it
fails the fault shows where the parse then is. -/
structure Level (tokens : Array Token) (faults : List ParseError) (counts : Nat → Prop) (P : α → Prop) (x : Parse α)
    (s : ParserState) : Prop where
  ok : s.Over tokens → (∀ p, ClassBehind tokens s.offset p → counts p) → ∀ {a t}, x s = .ok a t →
    s.Follows t ∧ s.StaysAbove tokens t ∧ (t.faults ⊆ faults →
      (height tokens t.position = height tokens s.position ∨ Slipped faults counts t) ∧ P a)
  error : s.Over tokens → (∀ p, ClassBehind tokens s.offset p → counts p) → ∀ {e t}, x s = .error e t →
    s.Follows t ∧ s.StaysAbove tokens t ∧ e.position = t.offset

variable {tokens : Array Token} {faults : List ParseError} {counts counts' : Nat → Prop} {s t : ParserState}

theorem Slipped.follows (h : Slipped faults counts s) (hs : s.Over tokens) (hf : s.Follows t) :
    Slipped faults counts t := by
  obtain ⟨fault, hmem, hcounts, hle⟩ := h
  exact ⟨fault, hmem, hcounts, Nat.le_trans hle (hf.offset_le hs.toSound)⟩

theorem Slipped.weaken (h : Slipped faults counts s) (hc : ∀ p, counts p → counts' p) : Slipped faults counts' s := by
  obtain ⟨fault, hmem, hcounts, hle⟩ := h
  exact ⟨fault, hmem, hc _ hcounts, hle⟩

namespace Level

variable {P : α → Prop} {Q : β → Prop} {x : Parse α} {f : α → Parse β}

/-- A parse that does the same. -/
theorem of_eq {y : Parse α} (h : Level tokens faults counts P x s) (he : y s = x s) :
    Level tokens faults counts P y s where
  ok hs hc _ _ hrun := h.ok hs hc (he.symm.trans hrun)
  error hs hc _ _ hrun := h.error hs hc (he.symm.trans hrun)

/-- What holds of the state and of what counts may be used. -/
theorem assume (h : s.Over tokens → (∀ p, ClassBehind tokens s.offset p → counts p) →
    Level tokens faults counts P x s) : Level tokens faults counts P x s :=
  ⟨fun hs hc => (h hs hc).ok hs hc, fun hs hc => (h hs hc).error hs hc⟩

theorem mono {P' : α → Prop} (h : Level tokens faults counts P x s) (hP : ∀ a, P a → P' a) :
    Level tokens faults counts P' x s where
  ok hs hc _ _ hrun := by
    obtain ⟨hf, habove, hrest⟩ := h.ok hs hc hrun
    exact ⟨hf, habove, fun ht => ⟨(hrest ht).1, hP _ (hrest ht).2⟩⟩
  error := h.error

/-- A parse that reads no token or one that is no brace. -/
theorem of_token {x : Parse α} (ho : ∀ a t, x s = .ok a t → P a ∧ (t = s ∨ t = s.advance ∧ s.NoBrace))
    (he : ∀ e t, x s = .error e t → t = s ∧ e.position = s.offset) : Level tokens faults counts P x s where
  ok hs _ a t hrun := by
    obtain ⟨ha, rfl | ⟨rfl, hk⟩⟩ := ho a t hrun
    · exact ⟨.rfl _, .rfl _, fun _ => ⟨.inl rfl, ha⟩⟩
    · refine ⟨s.follows_advance, .advance hs hk.2, fun _ => ⟨.inl ?_, ha⟩⟩
      by_cases hend : s.kind = .endOfInput
      · rw [hs.position_advance_of_end hend]
      · rw [(hs.height_advance hend).2, braceStep_of_noBrace hk, Int.add_zero]
  error _ _ e t hrun := by
    obtain ⟨rfl, hposition⟩ := he e t hrun
    exact ⟨.rfl _, .rfl _, hposition⟩

theorem pure {a : α} (h : P a) : Level tokens faults counts P (Pure.pure a) s :=
  of_token (fun _ _ hrun => by cases hrun; exact ⟨h, .inl rfl⟩) fun _ _ hrun => by cases hrun

theorem fail {e : ParseError} (he : e.position = s.offset) : Level tokens faults counts P (throw e) s :=
  of_token (fun _ _ hrun => by cases hrun) fun _ _ hrun => by cases hrun; exact ⟨rfl, he⟩

theorem look {f : ParserState → Parse α} (h : Level tokens faults counts P (f s) s) :
    Level tokens faults counts P (get >>= f) s := ⟨h.ok, h.error⟩

theorem offset {f : Nat → Parse α} (h : Level tokens faults counts P (f s.offset) s) :
    Level tokens faults counts P (Parse.offset >>= f) s := ⟨h.ok, h.error⟩

/-- **Two parses, one after the other.** -/
theorem bind (hx : Level tokens faults counts P x s)
    (hf : ∀ a u, x s = .ok a u → Level tokens faults counts (fun b => P a → Q b) (f a) u) :
    Level tokens faults counts Q (x >>= f) s where
  ok hs hc b t hrun := by
    obtain ⟨a, u, hxu, hfu⟩ := bind_ok.1 hrun
    obtain ⟨hfollows, habove, hrest⟩ := hx.ok hs hc hxu
    have hu := hs.follows hfollows
    have hcu : ∀ p, ClassBehind tokens u.offset p → counts p := fun p hp =>
      hc p (hp.mono (hfollows.offset_le hs.toSound))
    obtain ⟨hfollows', habove', hrest'⟩ := (hf a u hxu).ok hu hcu hfu
    refine ⟨hfollows.trans hfollows', habove.trans hfollows habove', fun ht => ?_⟩
    obtain ⟨heven, ha⟩ := hrest fun e he => ht (hfollows'.faults.subset he)
    obtain ⟨heven', hb⟩ := hrest' ht
    refine ⟨?_, hb ha⟩
    rcases heven with heven | hslip
    · exact heven'.imp_left fun h => h.trans heven
    · exact .inr (hslip.follows hu hfollows')
  error hs hc e t hrun := by
    rcases bind_error.1 hrun with hxu | ⟨a, u, hxu, hfu⟩
    · exact hx.error hs hc hxu
    · obtain ⟨hfollows, habove, -⟩ := hx.ok hs hc hxu
      obtain ⟨hfollows', habove', hposition⟩ := (hf a u hxu).error (hs.follows hfollows)
        (fun p hp => hc p (hp.mono (hfollows.offset_le hs.toSound))) hfu
      exact ⟨hfollows.trans hfollows', habove.trans hfollows habove', hposition⟩

/-- A parse of whose result nothing is said, and one after it. -/
theorem step (hx : Level tokens faults counts (fun _ => True) x s)
    (hf : ∀ a u, x s = .ok a u → Level tokens faults counts Q (f a) u) : Level tokens faults counts Q (x >>= f) s :=
  hx.bind fun a u hu => (hf a u hu).mono fun _ hb _ => hb

/-- Two parses, the second from a state that follows the first. -/
theorem after (hx : Level tokens faults counts P x s)
    (hf : ∀ a u, s.Over tokens → s.Follows u → Level tokens faults counts (fun b => P a → Q b) (f a) u) :
    Level tokens faults counts Q (x >>= f) s :=
  .assume fun hs hc => hx.bind fun a u hu => hf a u hs (hx.ok hs hc hu).1

theorem map {f : α → β} (hx : Level tokens faults counts P x s) (hf : ∀ a, P a → Q (f a)) :
    Level tokens faults counts Q (f <$> x) s := by
  rw [map_eq_pure_bind]
  exact hx.bind fun a _ _ => .pure (hf a)

/-! ### Tokens -/

theorem next (hk : s.NoBrace) : Level tokens faults counts (fun _ => True) next s :=
  of_token (fun _ _ hrun => by cases hrun; exact ⟨trivial, .inr ⟨rfl, hk⟩⟩) fun _ _ hrun => by cases hrun

theorem nextIf {p : ParserState → Bool} (hp : p s = true → s.NoBrace) :
    Level tokens faults counts (fun _ => True) (nextIf p) s := by
  refine of_token (fun a t hrun => ?_) fun e t hrun => ?_ <;> rw [Parse.nextIf] at hrun <;> split at hrun <;>
    cases hrun
  · rename_i h
    exact ⟨trivial, .inr ⟨rfl, hp h⟩⟩
  · exact ⟨trivial, .inl rfl⟩

theorem noBrace_of_kind {kind : TokenKind} (h : s.kind = kind) (ho : kind ≠ .punct .openBrace)
    (hc : kind ≠ .punct .closeBrace) : s.NoBrace := by
  subst h
  exact ⟨ho, hc⟩

theorem nextMark {mark : Punctuator} (ho : mark ≠ .openBrace) (hc : mark ≠ .closeBrace) :
    Level tokens faults counts (fun _ => True) (nextMark mark) s :=
  nextIf fun h => noBrace_of_kind (ParserState.atMark_iff.1 h) (by simpa using ho) (by simpa using hc)

theorem expectKind {kind : TokenKind} (ho : kind ≠ .punct .openBrace) (hc : kind ≠ .punct .closeBrace) :
    Level tokens faults counts (fun _ => True) (expectKind kind) s := by
  refine of_token (fun a t hrun => ?_) fun e t hrun => ?_
  · obtain ⟨hk, -, rfl⟩ := expectKind_ok hrun
    exact ⟨trivial, .inr ⟨rfl, noBrace_of_kind hk ho hc⟩⟩
  · obtain ⟨rfl, rfl⟩ := expectKind_error hrun
    exact ⟨rfl, rfl⟩

theorem expect {mark : Punctuator} (ho : mark ≠ .openBrace) (hc : mark ≠ .closeBrace) :
    Level tokens faults counts (fun _ => True) (expect mark) s :=
  expectKind (by simpa using ho) (by simpa using hc)

theorem noBrace_of_atReserved {word : String} (h : s.atReserved word = true) : s.NoBrace := by
  rw [ParserState.atReserved, Token.isReserved, Bool.and_eq_true, beq_iff_eq] at h
  exact noBrace_of_kind (show s.kind = .reserved from h.1) (by simp) (by simp)

theorem noBrace_of_atKeyword {word : Keyword} (h : s.atKeyword word = true) : s.NoBrace :=
  noBrace_of_kind (beq_iff_eq.1 h) (by simp) (by simp)

theorem noBrace_of_isWord (h : s.kind.isWord = true) : s.NoBrace := by
  constructor <;> intro hk <;> rw [hk] at h <;> cases h

theorem noBrace_of_atBindingName (h : s.atBindingName = true) : s.NoBrace := by
  rw [ParserState.atBindingName] at h
  constructor <;> intro hk <;> rw [hk] at h <;> cases h

theorem expectReserved {word : String} : Level tokens faults counts (fun _ => True) (expectReserved word) s := by
  refine of_token (fun a t hrun => ?_) fun e t hrun => ?_ <;> rw [Parse.expectReserved] at hrun <;>
    split at hrun <;> cases hrun
  · rename_i h
    exact ⟨trivial, .inr ⟨rfl, noBrace_of_atReserved h⟩⟩
  · exact ⟨rfl, rfl⟩

theorem bindingName : Level tokens faults counts (fun _ => True) bindingName s := by
  refine of_token (fun a t hrun => ?_) fun e t hrun => ?_ <;> rw [Parse.bindingName] at hrun <;>
    split at hrun <;> cases hrun
  · rename_i h
    exact ⟨trivial, .inr ⟨rfl, noBrace_of_atBindingName h⟩⟩
  · exact ⟨rfl, rfl⟩

theorem anyWord : Level tokens faults counts (fun _ => True) anyWord s := by
  refine of_token (fun a t hrun => ?_) fun e t hrun => ?_ <;> rw [Parse.anyWord] at hrun <;>
    split at hrun <;> cases hrun
  · rename_i h
    exact ⟨trivial, .inr ⟨rfl, noBrace_of_isWord h⟩⟩
  · exact ⟨rfl, rfl⟩

theorem semicolon : Level tokens faults counts (fun _ => True) semicolon s := by
  refine of_token (fun a t hrun => ?_) fun e t hrun => ?_ <;> rw [Parse.semicolon] at hrun <;> split at hrun
  · rename_i h
    cases hrun
    exact ⟨trivial, .inr ⟨rfl, noBrace_of_kind (ParserState.atMark_iff.1 h) (by simp) (by simp)⟩⟩
  · split at hrun <;> cases hrun
    exact ⟨trivial, .inl rfl⟩
  · cases hrun
  · split at hrun <;> cases hrun
    exact ⟨rfl, rfl⟩

theorem finish {R : Node → Prop} {start : Nat} {kind : NodeKind} (h : ∀ r, R ⟨r, kind⟩) :
    Level tokens faults counts R (finish start kind) s :=
  .look (.pure (h _))

/-! ### Modes and loops -/

/-- A parse from a state that differs in nothing the height depends on. -/
theorem of_state {s' : ParserState} (back : ParserState → ParserState) {y : Parse α}
    (hx : Level tokens faults counts P x s') (hover : s.Over tokens → s'.Over tokens) (hstream : s'.stream = s.stream)
    (hback : ∀ t, (back t).stream = t.stream ∧ (back t).faults = t.faults ∧ (s'.Follows t → s.Follows (back t)))
    (ho : ∀ {a t}, y s = .ok a t → ∃ u, x s' = .ok a u ∧ t = back u)
    (he : ∀ {e t}, y s = .error e t → (t = s ∧ e.position = s.offset) ∨ ∃ u, x s' = .error e u ∧ t = back u) :
    Level tokens faults counts P y s := by
  have hposition : s'.position = s.position := congrArg TokenStream.position hstream
  have hoffset : ∀ u : ParserState, ∀ v : ParserState, u.stream = v.stream → u.offset = v.offset := by
    intro u v h
    rw [ParserState.offset, ParserState.current, h, ParserState.offset, ParserState.current]
  have hpos : ∀ u, (back u).position = u.position := fun u => congrArg TokenStream.position (hback u).1
  have habove : ∀ {u}, s'.StaysAbove tokens u → s.StaysAbove tokens (back u) := by
    intro u h index hi hj
    have := h index (hposition ▸ hi) (hpos u ▸ hj)
    rwa [hposition] at this
  constructor
  · intro hs hc a t hrun
    obtain ⟨u, hu, rfl⟩ := ho hrun
    obtain ⟨hf, hstays, hrest⟩ := hx.ok (hover hs) (hoffset s' s hstream ▸ hc) hu
    refine ⟨(hback u).2.2 hf, habove hstays, fun ht => ?_⟩
    rw [(hback u).2.1] at ht
    obtain ⟨heven, ha⟩ := hrest ht
    rw [hpos, ← hposition]
    refine ⟨heven.imp_right fun hslip => ?_, ha⟩
    obtain ⟨fault, hmem, hcounts, hle⟩ := hslip
    exact ⟨fault, hmem, hcounts, Nat.le_trans hle (Nat.le_of_eq (hoffset _ u (hback u).1).symm)⟩
  · intro hs hc e t hrun
    rcases he hrun with ⟨rfl, hp⟩ | ⟨u, hu, rfl⟩
    · exact ⟨.rfl _, .rfl _, hp⟩
    · obtain ⟨hf, hstays, hp⟩ := hx.error (hover hs) (hoffset s' s hstream ▸ hc) hu
      exact ⟨(hback u).2.2 hf, habove hstays, hp.trans (hoffset _ u (hback u).1).symm⟩

theorem nested (h : Level tokens faults counts P x { s with depth := s.depth + 1 }) :
    Level tokens faults counts P (nested x) s := by
  refine of_state (fun t => { t with depth := t.depth - 1 }) h
    (fun hs => ⟨⟨hs.inside, hs.ordered, hs.filled, hs.covers, hs.ends⟩, hs.same⟩) rfl
    (fun t => ⟨rfl, rfl, fun hf => { hf with depth := by have := hf.depth; simp only at this ⊢; omega }⟩)
    (fun {a t} hrun => ?_) fun {e t} hrun => ?_
  · obtain ⟨-, u, hu, rfl⟩ := nested_ok hrun
    exact ⟨u, hu, rfl⟩
  · obtain ⟨-, rfl, rfl⟩ | ⟨u, hu, rfl⟩ := nested_error hrun
    · exact .inl ⟨rfl, rfl⟩
    · exact .inr ⟨u, hu, rfl⟩

theorem withNoIn {noIn : Bool} (h : Level tokens faults counts P x { s with noIn }) :
    Level tokens faults counts P (withNoIn noIn x) s := by
  refine of_state (fun t => { t with noIn := s.noIn }) h
    (fun hs => ⟨⟨hs.inside, hs.ordered, hs.filled, hs.covers, hs.ends⟩, hs.same⟩) rfl
    (fun t => ⟨rfl, rfl, fun hf => { hf with noIn := rfl }⟩)
    (fun {a t} hrun => ?_) fun {e t} hrun => ?_ <;> rw [Parse.withNoIn] at hrun <;> split at hrun <;>
    rename_i hu <;> cases hrun
  · exact ⟨_, hu, rfl⟩
  · exact .inr ⟨_, hu, rfl⟩

/-- A loop of parses, each of them from a state that is not before the first. -/
theorem collect {done : ParserState → Bool} {step : Parse (Option α)} : ∀ (rounds : Nat) (s : ParserState),
    (∀ t, (s.Over tokens → s.offset ≤ t.offset) → done t = false →
      Level tokens faults counts (fun o => ∀ a ∈ o, P a) step t) →
    Level tokens faults counts (fun l => ∀ a ∈ l, P a) (collect done step rounds) s
  | 0, _, _ => .pure (by simp)
  | rounds + 1, s, h => by
    refine .look ?_
    by_cases hd : done s = true
    · rw [if_pos hd]
      exact .pure (by simp)
    · rw [if_neg hd]
      refine (h s (fun _ => Nat.le_refl _) (Bool.eq_false_iff.2 hd)).after fun o u hs hf => ?_
      have hrest := collect rounds u fun t ht => h t fun _ =>
        Nat.le_trans (hf.offset_le hs.toSound) (ht (hs.follows hf))
      refine hrest.bind fun l v _ => .pure fun hl ho a ha => ?_
      rcases List.mem_append.1 ha with ha | ha
      · exact ho a (Option.mem_toList.1 ha)
      · exact hl a ha

theorem collectUntil {done : ParserState → Bool} {step : Parse (Option α)}
    (h : ∀ t, (s.Over tokens → s.offset ≤ t.offset) → done t = false →
      Level tokens faults counts (fun o => ∀ a ∈ o, P a) step t) :
    Level tokens faults counts (fun l => ∀ a ∈ l, P a) (collectUntil done step) s :=
  .look (collect _ s h)

end Level

/-! ### Braces -/

/-- The tokens at two places are braces that match: the height in between is above that of the
opening one, and after the closing one it is the same again. -/
def Matching (tokens : Array Token) (i j : Nat) : Prop :=
  i < j ∧ (∀ k ≤ j, i < k → height tokens i < height tokens k) ∧ height tokens (j + 1) = height tokens i

/-- The range is that from an opening brace to the closing one that matches it. -/
def Matched (tokens : Array Token) (r : TextRange) : Prop :=
  ∃ i j : Fin tokens.size, Matching tokens i j ∧
    (tokens[i].kind = .punct .openBrace ∧ tokens[i].start = r.start) ∧
    (tokens[j].kind = .punct .closeBrace ∧ tokens[j].stop = r.stop)

instance (tokens : Array Token) (i j : Nat) : Decidable (Matching tokens i j) :=
  inferInstanceAs (Decidable (_ ∧ _ ∧ _))

instance (tokens : Array Token) (r : TextRange) : Decidable (Matched tokens r) :=
  inferInstanceAs (Decidable (∃ _ _ : Fin tokens.size, _))

/-- A parse that closes a brace: it reads the closing one or, at the end of the input, nothing. -/
structure Closing (close : Parse γ) : Prop where
  ok : ∀ {v c t}, close v = .ok c t → v.kind = .punct .closeBrace ∧ t = v.advance ∨ v.kind = .endOfInput
  error : ∀ {v e t}, close v = .error e t → t = v ∧ e.position = v.offset

theorem expect_position {mark : Punctuator} {v t : ParserState} {e : ParseError} (h : expect mark v = .error e t) :
    e.position = v.offset := by
  obtain ⟨rfl, -⟩ := expectKind_error h
  rfl

theorem closing_expect : Closing (expect .closeBrace) where
  ok h := by
    obtain ⟨hk, -, rfl⟩ := expect_ok h
    exact .inl ⟨hk, rfl⟩
  error h := ⟨expect_error h, expect_position h⟩

theorem closes_of_closeBrace {v t : ParserState} {stop : Nat} (h : closeBrace v = .ok stop t) :
    v.kind = .punct .closeBrace ∧ stop = v.current.stop ∧ t = v.advance ∨ v.kind = .endOfInput := by
  rcases closeBrace_ok.1 h with ⟨hend, -⟩ | ⟨-, h⟩
  · rw [Bool.and_eq_true] at hend
    exact .inr (beq_iff_eq.1 hend.2)
  · exact .inl h

theorem closing_closeBrace : Closing closeBrace where
  ok h := (closes_of_closeBrace h).imp_left fun h => ⟨h.1, h.2.2⟩
  error {v e t} h := by
    rw [closeBrace, get_run] at h
    split at h
    · cases h
    · rcases bind_error.1 h with h | ⟨token, u, -, h⟩
      · exact closing_expect.error h
      · cases h

namespace Level

variable {P : α → Prop} {Q : β → Prop} {inner : Parse α} {close : Parse γ} {f : α → γ → Parse β}

/-- **What stands in braces** ends at the closing brace that matches the opening one, unless a fault
that counts shows inside. The end of the input closes no brace, as none is open there. -/
theorem braces (hb : BalancedBraces tokens) (hclose : Closing close)
    (hin : ∀ p, ClassBehind tokens s.offset p → counts' p) (hout : ∀ p, counts' p → counts p)
    (hinner : Level tokens faults counts' P inner s.advance)
    (hf : ∀ a v c, v.Over tokens → v.kind = .punct .closeBrace → close v = .ok c v.advance →
      Level tokens faults counts
        (fun b => P a → Matched tokens ⟨s.offset, v.current.stop⟩ ∨ Slipped faults counts' v → Q b) (f a c) v.advance) :
    Level tokens faults counts Q
      (Parse.expect .openBrace >>= fun _ => inner >>= fun a => close >>= fun c => f a c) s := by
  -- inside of the braces the height is above that before them
  have hbegin : s.Over tokens → s.kind = .punct .openBrace → s.advance.Over tokens ∧
      height tokens s.advance.position = height tokens s.position + 1 ∧ s.advance.position = s.position + 1 := by
    intro hs hk
    obtain ⟨hp, hheight⟩ := hs.height_advance (by rw [hk]; simp)
    rw [braceStep_of_not_close (by rw [hk]; simp), if_pos (ParserState.atMark_iff.2 hk)] at hheight
    exact ⟨hs.follows s.follows_advance, hheight, hp⟩
  have habove : s.Over tokens → s.kind = .punct .openBrace → s.StaysAbove tokens s.advance :=
    fun hs hk => .advance hs (by rw [hk]; simp)
  have hend : ∀ {v c t}, s.Over tokens → s.kind = .punct .openBrace → s.advance.Follows v →
      s.advance.StaysAbove tokens v → close v = .ok c t →
      v.kind = .punct .closeBrace ∧ t = v.advance ∧ s.StaysAbove tokens v.advance ∧
        height tokens v.advance.position + 1 = height tokens v.position ∧ v.advance.position = v.position + 1 := by
    intro v c t hs hk hfollows hstays hrun
    obtain ⟨hadvance, hheight, -⟩ := hbegin hs hk
    have hv := hadvance.follows hfollows
    have hle := hstays.end_le hfollows
    rcases hclose.ok hrun with ⟨hvk, rfl⟩ | hvk
    · obtain ⟨hp, hheight'⟩ := hv.height_advance (by rw [hvk]; simp)
      have hdown := braceStep_of_close hvk
      refine ⟨hvk, rfl, fun index hi hj => ?_, by omega, hp⟩
      rcases Nat.eq_or_lt_of_le hj with rfl | hlt
      · omega
      · exact ((habove hs hk).trans s.follows_advance hstays) index hi (by omega)
    · have hzero := hv.height_of_end hb hvk
      have hnonneg := hb.nonneg s.position
      omega
  constructor
  · intro hs hc b w hrun
    obtain ⟨_, u, hu, hrun⟩ := bind_ok.1 hrun
    obtain ⟨hk, -, rfl⟩ := expect_ok hu
    obtain ⟨a, v, hv, hrun⟩ := bind_ok.1 hrun
    obtain ⟨c, t, ht, hrun⟩ := bind_ok.1 hrun
    obtain ⟨hadvance, hheight, hp⟩ := hbegin hs hk
    have hoffset := s.follows_advance.offset_le hs.toSound
    obtain ⟨hfollows, hstays, hrest⟩ := hinner.ok hadvance (fun p hp => hin p (hp.mono hoffset)) hv
    obtain ⟨hvk, rfl, hstays', hdown, hpv⟩ := hend hs hk hfollows hstays ht
    have hvover := hadvance.follows hfollows
    have hfollows' : s.Follows v.advance := (s.follows_advance.trans hfollows).trans v.follows_advance
    have hc' : ∀ p, ClassBehind tokens v.advance.offset p → counts p := fun p hp =>
      hc p (hp.mono (hfollows'.offset_le hs.toSound))
    obtain ⟨hfw, hstaysw, hrestw⟩ := (hf a v c hvover hvk ht).ok (hs.follows hfollows') hc' hrun
    refine ⟨hfollows'.trans hfw, hstays'.trans hfollows' hstaysw, fun hfaults => ?_⟩
    obtain ⟨heven, ha⟩ := hrest fun e he => hfaults ((v.follows_advance.trans hfw).faults.subset he)
    obtain ⟨hevenw, hQ⟩ := hrestw hfaults
    have hmatched : Matched tokens ⟨s.offset, v.current.stop⟩ ∨ Slipped faults counts' v := by
      refine heven.imp_left fun heq => ?_
      have hmatching : Matching tokens s.position v.position := by
        refine ⟨?_, fun k hj hi => ?_, ?_⟩
        · have := hfollows.position
          omega
        · have := hstays k (by omega) hj
          omega
        · rw [← hpv]
          omega
      refine ⟨⟨s.position, hs.inside_tokens⟩, ⟨v.position, hvover.inside_tokens⟩, hmatching, ?_, ?_⟩
      · rw [Fin.getElem_fin, ← hs.current_eq_tokens hs.inside_tokens]
        exact ⟨hk, rfl⟩
      · rw [Fin.getElem_fin, ← hvover.current_eq_tokens hvover.inside_tokens]
        exact ⟨hvk, rfl⟩
    refine ⟨?_, hQ ha hmatched⟩
    rcases heven with heq | hslip
    · exact hevenw.imp_left fun h => by omega
    · exact .inr ((hslip.weaken hout).follows hvover (v.follows_advance.trans hfw))
  · intro hs hc e w hrun
    rcases bind_error.1 hrun with hu | ⟨_, u, hu, hrun⟩
    · obtain rfl := expect_error hu
      exact ⟨.rfl _, .rfl _, expect_position hu⟩
    · obtain ⟨hk, -, rfl⟩ := expect_ok hu
      obtain ⟨hadvance, hheight, hp⟩ := hbegin hs hk
      have hcin : ∀ p, ClassBehind tokens s.advance.offset p → counts' p := fun p hp =>
        hin p (hp.mono (s.follows_advance.offset_le hs.toSound))
      rcases bind_error.1 hrun with hv | ⟨a, v, hv, hrun⟩
      · obtain ⟨hfollows, hstays, hposition⟩ := hinner.error hadvance hcin hv
        exact ⟨s.follows_advance.trans hfollows, (habove hs hk).trans s.follows_advance hstays, hposition⟩
      · obtain ⟨hfollows, hstays, -⟩ := hinner.ok hadvance hcin hv
        rcases bind_error.1 hrun with ht | ⟨c, t, ht, hrun⟩
        · obtain ⟨rfl, hposition⟩ := hclose.error ht
          exact ⟨s.follows_advance.trans hfollows, (habove hs hk).trans s.follows_advance hstays, hposition⟩
        · obtain ⟨hvk, rfl, hstays', -, -⟩ := hend hs hk hfollows hstays ht
          have hfollows' : s.Follows v.advance := (s.follows_advance.trans hfollows).trans v.follows_advance
          obtain ⟨hfw, hstaysw, hposition⟩ := (hf a v c (hadvance.follows hfollows) hvk ht).error (hs.follows hfollows')
            (fun p hp => hc p (hp.mono (hfollows'.offset_le hs.toSound))) hrun
          exact ⟨hfollows'.trans hfw, hstays'.trans hfollows' hstaysw, hposition⟩

/-! ### Skipping -/

/-- **A statement of a list** ends at the height of its start, also where it is skipped. -/
theorem statementOrSkip {x : Parse Node} {R : Node → Prop} (hb : BalancedBraces tokens) (hr : s.recovering = true)
    (hk : s.kind ≠ .punct .closeBrace) (hx : Level tokens faults counts R x s) :
    Level tokens faults counts (fun o => ∀ n ∈ o, R n) (statementOrSkip x) s where
  ok hs hc o t hrun := by
    rcases statementOrSkip_cases x s with ⟨n, u, hxu, hread⟩ | ⟨fault, u, hxu, hskip⟩
    · cases hread.symm.trans hrun
      obtain ⟨hf, habove, hrest⟩ := hx.ok hs hc hxu
      exact ⟨hf, habove, fun ht => ⟨(hrest ht).1, fun n hn => by cases hn; exact (hrest ht).2⟩⟩
    · cases hskip.symm.trans hrun
      obtain ⟨hf, habove, -⟩ := hx.error hs hc hxu
      have hreport := hf.trans (follows_report (hf.recovering.trans hr) fault)
      obtain ⟨heven, hstays⟩ := skipStatement_restores hb hs hreport habove hk
      exact ⟨hreport.trans (follows_skipStatement ..), hstays, fun _ => ⟨.inl heven, fun n hn => by cases hn⟩⟩
  error hs hc e t hrun := by
    rcases statementOrSkip_cases x s with ⟨n, u, -, hread⟩ | ⟨fault, u, -, hskip⟩
    · cases hread.symm.trans hrun
    · cases hskip.symm.trans hrun

/-- A class element may be skipped to a greater height, and then its fault shows there. -/
theorem listedElement {g : Grammar} {R : Node → Prop} (hb : BalancedBraces tokens) (hk : s.kind ≠ .punct .closeBrace)
    (hcounts : ∀ p, s.offset ≤ p → counts p)
    (hx : Level tokens faults counts (fun o => ∀ n ∈ o, R n) (classElement g) s) :
    Level tokens faults counts (fun o => ∀ n ∈ o, R n) (listedElement g) s := by
  rcases listedElement_cases g s with
    ⟨hsemi, hrun⟩ | ⟨-, ⟨o, t, hxt, hrun⟩ | ⟨fault, u, hxu, ⟨hr, hrun⟩ | ⟨-, hrun⟩⟩⟩
  · have hlevel : Level tokens faults counts (fun o => ∀ n ∈ o, R n)
        (Parse.nextMark .semicolon >>= fun _ => Pure.pure none) s :=
      step (nextMark (by decide) (by decide)) fun _ _ _ => .pure (by simp)
    refine hlevel.of_eq (hrun.trans ?_)
    rw [bind_of_ok (nextMark_of_true hsemi)]
    rfl
  · exact hx.of_eq (hrun.trans hxt.symm)
  · -- the element is skipped
    constructor
    · intro hs hc o t h
      cases hrun.symm.trans h
      obtain ⟨hf, habove, hposition⟩ := hx.error hs hc hxu
      have hreport := hf.trans (follows_report hr fault)
      have hskip := follows_skipElement s.position (u.report fault)
      have hle := hskip.offset_le (hs.follows hreport).toSound
      refine ⟨hreport.trans hskip, skipElement_staysAbove hb hs hreport habove hk, fun ht => ⟨.inr ?_, by simp⟩⟩
      refine ⟨_, ht (hskip.faults.subset List.mem_cons_self), hcounts _ ?_, ?_⟩
      · rw [hposition]
        exact hf.offset_le hs.toSound
      · rw [hposition]
        exact hle
    · intro hs hc e t h
      cases hrun.symm.trans h
  · exact hx.of_eq (hrun.trans hxu.symm)

end Level
end Typeahead
