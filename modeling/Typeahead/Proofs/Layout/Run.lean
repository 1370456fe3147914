/-
# What a run lays out

Where the tokens are in order, a run reads pieces of the tree one after the other. Each starts
at a token that is read and ends at the one read last; only while recovering, at the end of
the input, may a piece reach one offset further, and then no other follows it.

Key definitions: `ParserState.Sound`, `ParserState.reach`, `Lays`, `Grammar.Lays`.
Key theorems: `ParserState.Follows.reach_le`, `Lays.append`, `Lays.finish`, `Lays.collect`.
-/
import Typeahead.Proofs.Layout.Tree
import Typeahead.Proofs.Parse.Source
import Typeahead.Proofs.Parse.Statements

namespace Typeahead

open Parse Grammar

variable {α β : Type}

/-! ### Tokens in order -/

/-- The place is among the tokens, which follow one another and cover text, but for the end of
the input, which is the last. -/
structure ParserState.Sound (s : ParserState) : Prop where
  inside : s.position < s.stream.tokens.size
  ordered : ∀ i j (hi : i < s.stream.tokens.size) (hj : j < s.stream.tokens.size), i < j →
    s.stream.tokens[i].stop ≤ s.stream.tokens[j].start
  filled : ∀ i (hi : i < s.stream.tokens.size), s.stream.tokens[i].start ≤ s.stream.tokens[i].stop
  covers : ∀ i (hi : i < s.stream.tokens.size), s.stream.tokens[i].kind ≠ .endOfInput →
    s.stream.tokens[i].start < s.stream.tokens[i].stop
  ends : ∀ i (hi : i < s.stream.tokens.size), s.stream.tokens[i].kind = .endOfInput ↔
    i + 1 = s.stream.tokens.size

/-- The offset up to which what was read may cover the text: the end of the last token, or one
offset more than the text while recovering at its end. -/
def ParserState.reach (s : ParserState) : Nat :=
  if s.recovering && s.atEnd then s.current.stop + 1 else s.lastStop

/-- The tokens from the current one on. -/
def ParserState.ahead (s : ParserState) : List Token := s.stream.tokens.toList.drop s.position

namespace ParserState

variable {s t : ParserState}

namespace Sound

theorem current_eq (h : s.Sound) (hi : s.position < s.stream.tokens.size) :
    s.current = s.stream.tokens[s.position] := by
  have hmin : min (s.stream.position + 0) s.stream.lastIndex = s.stream.position := by
    have := h.inside
    rw [position] at this
    rw [TokenStream.lastIndex]
    omega
  rw [current, TokenStream.peek, TokenStream.peekAhead]
  congr 1

theorem follows (h : s.Sound) (hf : s.Follows t) : t.Sound := by
  have hbound := hf.bound
  obtain ⟨⟨tokens, p, hp⟩, d, r, noIn, fs, ra, fa⟩ := t
  obtain rfl : tokens = s.stream.tokens := hf.tokens
  refine ⟨?_, h.ordered, h.filled, h.covers, h.ends⟩
  have := h.inside
  simp only [position, TokenStream.lastIndex] at *
  omega

theorem kind_eq_end (h : s.Sound) : s.kind = .endOfInput ↔ s.position + 1 = s.stream.tokens.size := by
  rw [kind, h.current_eq h.inside]
  exact h.ends _ _

theorem lastStop_eq (hp : 0 < s.position) (hlt : s.position - 1 < s.stream.tokens.size) :
    s.lastStop = s.stream.tokens[s.position - 1].stop := by
  have hne : s.stream.position ≠ 0 := Nat.pos_iff_ne_zero.1 hp
  have hat : s.stream.tokens[s.stream.position - 1]? = some s.stream.tokens[s.position - 1] :=
    Array.getElem?_eq_getElem hlt
  rw [lastStop, TokenStream.previous?, if_neg hne, hat]
  rfl

theorem lastStop_le_offset (h : s.Sound) : s.lastStop ≤ s.offset := by
  rcases Nat.eq_zero_or_pos s.position with hp | hp
  · have hzero : s.stream.position = 0 := hp
    rw [lastStop, TokenStream.previous?, if_pos hzero]
    exact Nat.zero_le _
  · have hin := h.inside
    rw [lastStop_eq hp (by omega), offset, h.current_eq hin]
    exact h.ordered _ _ _ _ (by omega)

theorem offset_le_stop (h : s.Sound) : s.offset ≤ s.current.stop := by
  rw [offset, h.current_eq h.inside]
  exact h.filled _ _

/-- What is read stops before where the parse then is. -/
theorem stop_le_lastStop (h : s.Sound) (hf : s.Follows t) (hp : s.position < t.position) :
    s.current.stop ≤ t.lastStop := by
  have ht := h.follows hf
  have hin := ht.inside
  have hsize : t.position < s.stream.tokens.size := by rw [← hf.tokens]; exact hin
  rw [lastStop_eq (by omega) (by omega), h.current_eq h.inside]
  simp only [hf.tokens]
  by_cases hq : s.position = t.position - 1
  · simp only [hq, Nat.le_refl]
  · exact Nat.le_trans (h.ordered s.position (t.position - 1) h.inside (by omega) (by omega))
      (h.filled _ _)

/-- A token that is read covers text. -/
theorem offset_lt_lastStop (h : s.Sound) (hf : s.Follows t) (hp : s.position < t.position) :
    s.offset < t.lastStop := by
  have hsize : t.position < s.stream.tokens.size := by rw [← hf.tokens]; exact (h.follows hf).inside
  have hend : s.stream.tokens[s.position].kind ≠ .endOfInput := by
    rw [Ne, h.ends]
    omega
  refine Nat.lt_of_lt_of_le ?_ (h.stop_le_lastStop hf hp)
  rw [offset, h.current_eq h.inside]
  exact h.covers _ h.inside hend

theorem closed (h : s.Sound) : s.Closed := fun hlast => (h.ends _ hlast).2 (by
  have := s.stream.nonempty
  rw [TokenStream.lastIndex]
  omega)

/-! What is ahead. -/

variable {token : Token} {rest : List Token}

/-- Only the stream matters. -/
theorem of_stream (h : s.Sound) (ht : t.stream = s.stream) : t.Sound := by
  obtain ⟨_, d, r, noIn, fs, ra, fa⟩ := t
  obtain rfl := ht
  exact ⟨h.inside, h.ordered, h.filled, h.covers, h.ends⟩

theorem current_of_ahead (hs : s.Sound) (h : s.ahead = token :: rest) : s.current = token := by
  have hin := hs.inside
  rw [ahead, List.drop_eq_getElem_cons (by simpa using hin)] at h
  rw [hs.current_eq hin, ← (List.cons.inj h).1]
  rfl

theorem position_advance (hs : s.Sound) (hk : s.kind ≠ .endOfInput) : s.advance.position = s.position + 1 := by
  have hin := hs.inside
  have hend := mt hs.kind_eq_end.2 hk
  have hlt : s.stream.position < s.stream.lastIndex := by
    rw [TokenStream.lastIndex]
    rw [position] at hin hend
    omega
  rw [position, advance, TokenStream.advance, if_pos hlt]
  rfl

theorem ahead_advance (hs : s.Sound) (hk : s.kind ≠ .endOfInput) (h : s.ahead = token :: rest) :
    s.advance.ahead = rest := by
  have htokens : s.advance.stream.tokens = s.stream.tokens := s.stream.tokens_advance
  rw [ahead, List.drop_eq_getElem_cons (by simpa using hs.inside)] at h
  rw [ahead, htokens, hs.position_advance hk]
  exact (List.cons.inj h).2

theorem lastStop_advance (hs : s.Sound) (hk : s.kind ≠ .endOfInput) : s.advance.lastStop = s.current.stop := by
  have hin := hs.inside
  have hposition := hs.position_advance hk
  have htokens : s.advance.stream.tokens = s.stream.tokens := s.stream.tokens_advance
  have hlt : s.advance.position - 1 < s.advance.stream.tokens.size := by
    rw [htokens, hposition]
    omega
  rw [lastStop_eq (by omega) hlt, hs.current_eq hin]
  simp only [htokens, hposition, Nat.add_sub_cancel]

end Sound

variable (hs : s.Sound) (hf : s.Follows t)
include hs hf

theorem Follows.offset_le : s.offset ≤ t.offset := by
  rcases Nat.eq_or_lt_of_le hf.position with hp | hp
  · have ht := hs.follows hf
    rw [offset, offset, hs.current_eq hs.inside, ht.current_eq ht.inside]
    simp only [hf.tokens, hp, Nat.le_refl]
  · exact Nat.le_trans (Nat.le_of_lt (hs.offset_lt_lastStop hf hp)) (hs.follows hf).lastStop_le_offset

theorem Follows.lastStop_le : s.lastStop ≤ t.lastStop := by
  rcases Nat.eq_or_lt_of_le hf.position with hp | hp
  · have hprevious : t.stream.previous? = s.stream.previous? := by
      simp only [TokenStream.previous?, show t.stream.position = s.stream.position from hp.symm,
        hf.tokens]
    exact Nat.le_of_eq (by rw [lastStop, lastStop, hprevious])
  · exact Nat.le_trans hs.lastStop_le_offset (Nat.le_of_lt (hs.offset_lt_lastStop hf hp))

/-- What was read reaches no less far later on. -/
theorem Follows.reach_le : s.reach ≤ t.reach := by
  have ht := hs.follows hf
  have hlast := hf.lastStop_le hs
  have := ht.lastStop_le_offset
  have := ht.offset_le_stop
  by_cases h : (s.recovering && s.atEnd) = true
  · -- at the end of the input the place stays
    rw [Bool.and_eq_true] at h
    have hend := hs.kind_eq_end.1 (beq_iff_eq.1 h.2)
    have hbound := hf.bound
    have hmono := hf.position
    rw [TokenStream.lastIndex] at hbound
    have hp : t.position = s.position := by omega
    have hcurrent : t.current = s.current := by
      rw [hs.current_eq hs.inside, ht.current_eq ht.inside]
      simp only [hf.tokens, hp]
    have hatEnd : t.atEnd = true := by
      have hk : t.kind = .endOfInput := by rw [kind, hcurrent]; exact beq_iff_eq.1 h.2
      exact beq_iff_eq.2 hk
    have hreach : s.reach = t.reach := by
      rw [reach, reach, hf.recovering, h.1, h.2, hatEnd, hcurrent]
      rfl
    exact Nat.le_of_eq hreach
  · rw [reach, if_neg h, reach]
    split <;> omega

end ParserState

theorem ParserState.Sound.reach_le_offset {s : ParserState} (h : s.Sound) (hk : s.kind ≠ .endOfInput) :
    s.reach ≤ s.offset := by
  have hend : ¬ (s.recovering && s.atEnd) = true := by
    rw [Bool.and_eq_true]
    exact fun h => hk (beq_iff_eq.1 h.2)
  rw [ParserState.reach, if_neg hend]
  exact h.lastStop_le_offset

theorem ParserState.reach_of_strict {s : ParserState} (h : s.recovering = false) : s.reach = s.lastStop := by
  rw [ParserState.reach, h, Bool.false_and, if_neg Bool.false_ne_true]

theorem ParserState.Sound.lastStop_le_reach {s : ParserState} (h : s.Sound) : s.lastStop ≤ s.reach := by
  have := h.lastStop_le_offset
  have := h.offset_le_stop
  rw [ParserState.reach]
  split <;> omega

/-! ### Runs -/

/-- The run from `s` to `t` laid out the pieces `nodes`, of which each is as `P` says. -/
structure Lays (P : Node → Prop) (s t : ParserState) (nodes : List Node) : Prop where
  sound : s.Sound
  follows : s.Follows t
  free : nodes ≠ [] → s.kind ≠ .endOfInput
  inOrder : InOrder s.offset nodes
  placed : ∀ n ∈ nodes, n.Placed
  within : ∀ n ∈ nodes, n.EndsWithin t.reach
  tight : s.recovering = false → ∀ n ∈ nodes, n.Tight
  holds : ∀ n ∈ nodes, P n

/-- The offset may be where a node stops that consists of pieces read from `s` to `t`. -/
structure Stops (s t : ParserState) (nodes : List Node) (stop : Nat) : Prop where
  progress : s.position < t.position
  lt : s.offset < stop
  le : stop ≤ t.reach
  covers : s.recovering = false → ∀ n ∈ nodes, n.EndsWithin stop

/-- The node consists of the pieces; what else it holds is in them. -/
structure NodeKind.Consists (kind : NodeKind) (nodes : List Node) : Prop where
  pieces : kind.pieces = nodes
  children : ∀ n ∈ kind.children, ∃ m ∈ nodes, m.Contains n

theorem NodeKind.Consists.of_eq {kind : NodeKind} {nodes : List Node} (hp : kind.pieces = nodes)
    (hc : kind.children = nodes) : kind.Consists nodes :=
  ⟨hp, fun n hn => ⟨n, hc ▸ hn, .self n⟩⟩

namespace Lays

variable {P Q : Node → Prop} {most stop : Nat} {s t u : ParserState} {l m : List Node}
  {kind : NodeKind}

theorem sound_after (h : Lays P s t l) : t.Sound := h.sound.follows h.follows

theorem nil (hs : s.Sound) (hf : s.Follows t) : Lays P s t [] :=
  ⟨hs, hf, by simp, .nil, by simp, by simp, by simp, by simp⟩

theorem weaken (h : Lays P s t l) (hPQ : ∀ n, P n → Q n) : Lays Q s t l :=
  { h with holds := fun n hn => hPQ n (h.holds n hn) }

theorem mono {most' : Nat} (h : Lays (Node.ScopesWithin most) s t l) (hle : most ≤ most') :
    Lays (Node.ScopesWithin most') s t l :=
  h.weaken fun _ hn => hn.mono hle

theorem also {n : Node} (h : Lays P s t [n]) (hQ : Q n) : Lays (fun m => P m ∧ Q m) s t [n] :=
  { h with holds := fun m hm => ⟨h.holds m hm, List.mem_singleton.1 hm ▸ hQ⟩ }

/-- What is read after some pieces starts where they have ended. -/
theorem append (h : Lays P s t l) (h' : Lays P t u m) : Lays P s u (l ++ m) where
  sound := h.sound
  follows := h.follows.trans h'.follows
  free hne hk := by
    by_cases hm : m = []
    · exact h.free (by simpa [hm] using hne) hk
    · refine h'.free hm ?_
      -- at the end of the input the place stays
      have hend := h.sound.kind_eq_end.1 hk
      have hin := h.sound_after.inside
      have hmono := h.follows.position
      rw [h.follows.tokens] at hin
      rw [h.sound_after.kind_eq_end, h.follows.tokens]
      omega
  inOrder := by
    by_cases hm : m = []
    · rw [hm, List.append_nil]
      exact h.inOrder
    · have hle := h.sound_after.reach_le_offset (h'.free hm)
      exact h.inOrder.append h'.inOrder (fun n hn => (h.within n hn).mono hle)
        (h.follows.offset_le h.sound)
  placed n hn := (List.mem_append.1 hn).elim (h.placed n) (h'.placed n)
  within n hn := (List.mem_append.1 hn).elim
    (fun hn => (h.within n hn).mono (h'.follows.reach_le h'.sound)) (h'.within n)
  tight hs n hn := (List.mem_append.1 hn).elim (h.tight hs n) (h'.tight (h.follows.recovering.trans hs) n)
  holds n hn := (List.mem_append.1 hn).elim (h.holds n) (h'.holds n)

/-- Tokens are read, but no piece. -/
theorem step (h : Lays P s t l) (hf : t.Follows u) : Lays P s u l := by
  simpa using h.append (.nil h.sound_after hf)

/-- Tokens were read before. -/
theorem after (hs : s.Sound) (hf : s.Follows t) (h : Lays P t u m) : Lays P s u m := by
  simpa using (Lays.nil hs hf).append h

/-- A piece is read by reading a token. -/
theorem progress (h : Lays P s t l) (hl : l ≠ []) : s.position < t.position := by
  obtain ⟨n, hn⟩ := List.exists_mem_of_ne_nil l hl
  by_contra hge
  have hp : s.position = t.position := Nat.le_antisymm h.follows.position (Nat.le_of_not_lt hge)
  have hstart := h.inOrder.starts n hn
  have hstop := (h.within n hn).stop_le
  have hlt := (h.placed n hn).start_lt_stop
  have hk : t.kind ≠ .endOfInput := by
    rw [Ne, h.sound_after.kind_eq_end, h.follows.tokens, ← hp, ← h.sound.kind_eq_end]
    exact h.free hl
  have hreach := h.sound_after.reach_le_offset hk
  have hoffset : t.offset = s.offset := by
    rw [ParserState.offset, ParserState.offset, h.sound.current_eq h.sound.inside,
      h.sound_after.current_eq h.sound_after.inside]
    simp only [h.follows.tokens, hp]
  omega

/-! ### Nodes -/

theorem stops_free (h : Stops s t l stop) (hs : s.Sound) (hf : s.Follows t) :
    s.kind ≠ .endOfInput := by
  rw [Ne, hs.kind_eq_end]
  have hin := (hs.follows hf).inside
  have := h.progress
  rw [hf.tokens] at hin
  omega

/-- Nodes stop where the token read last does. -/
theorem stops_finish (h : Lays P s t l) (hp : s.position < t.position) :
    Stops s t l (max t.lastStop s.offset) := by
  have hlt := h.sound.offset_lt_lastStop h.follows hp
  have := h.sound_after.lastStop_le_reach
  refine ⟨hp, by omega, by omega, fun hs n hn => (h.within n hn).mono ?_⟩
  rw [ParserState.reach_of_strict (h.follows.recovering.trans hs)]
  exact Nat.le_max_left ..

/-- A node may stop where its last piece does. -/
theorem stops_last {n : Node} (h : Lays P s t (l ++ [n])) : Stops s t (l ++ [n]) n.stop := by
  have hn : n ∈ l ++ [n] := by simp
  have hstart := h.inOrder.starts n hn
  have hlt := (h.placed n hn).start_lt_stop
  refine ⟨h.progress (by simp), by omega, (h.within n hn).stop_le, fun hs m hm => ?_⟩
  rcases List.mem_append.1 hm with hm | hm
  · exact ((List.pairwise_append.1 h.inOrder.apart).2.2 m hm n List.mem_cons_self).mono (Nat.le_of_lt hlt)
  · rw [List.mem_singleton.1 hm]
    exact (h.tight hs n hn).endsWithin

/-- What was read of a node makes a node. -/
theorem node (h : Lays P s t l) (hs : Stops s t l stop) (hl : kind.Consists l)
    (hb : kind.Braced ⟨s.offset, stop⟩)
    (hbody : ∀ r ∈ kind.classBody?, r.stop ≤ t.reach ∧ (s.recovering = false → r.stop ≤ stop))
    (hQ : Q ⟨⟨s.offset, stop⟩, kind⟩) : Lays Q s t [⟨⟨s.offset, stop⟩, kind⟩] where
  sound := h.sound
  follows := h.follows
  free _ := stops_free hs h.sound h.follows
  inOrder := ⟨by simp [Node.start, Node.range], List.pairwise_singleton ..⟩
  placed n hn := by
    rw [List.mem_singleton.1 hn]
    exact .mk hs.lt (hl.pieces ▸ h.inOrder) hb (hl.pieces ▸ h.placed)
  within n hn := by
    rw [List.mem_singleton.1 hn]
    refine .mk hs.le (fun r hr => (hbody r hr).1) fun c hc => ?_
    obtain ⟨m, hm, hcm⟩ := hl.children c hc
    exact (h.within m hm).of_contains hcm
  tight hstrict n hn := by
    rw [List.mem_singleton.1 hn]
    refine .mk (.mk (Nat.le_refl _) (fun r hr => (hbody r hr).2 hstrict) fun c hc => ?_) fun c hc => ?_
    · obtain ⟨m, hm, hcm⟩ := hl.children c hc
      exact (hs.covers hstrict m hm).of_contains hcm
    · obtain ⟨m, hm, hcm⟩ := hl.children c hc
      exact (h.tight hstrict m hm).of_contains hcm
  holds n hn := by rw [List.mem_singleton.1 hn]; exact hQ

/-- A node that opens no scope. -/
theorem plain (h : Lays P s t l) (hs : Stops s t l stop) (hl : kind.Consists l)
    (hk : kind.opensScope = false) (hc : ∀ n ∈ kind.counted, n.ScopesWithin most) :
    Lays (Node.ScopesWithin most) s t [⟨⟨s.offset, stop⟩, kind⟩] := by
  have hbody : kind.classBody? = none := by cases kind <;> first | rfl | cases hk
  refine h.node hs hl ?_ (by simp [hbody]) (.plain hk hc)
  cases kind <;> trivial

/-- A node that opens no scope, with all pieces in one list. -/
theorem flat (h : Lays (Node.ScopesWithin most) s t kind.children) (hs : Stops s t kind.children stop)
    (hk : kind.opensScope = false) (hp : kind.pieces = kind.children) (hc : kind.counted = kind.children) :
    Lays (Node.ScopesWithin most) s t [⟨⟨s.offset, stop⟩, kind⟩] :=
  h.plain hs (.of_eq hp rfl) hk (hc ▸ h.holds)

/-- Such a node that stops where the token read last does. -/
theorem finish (h : Lays (Node.ScopesWithin most) s t kind.children) (hp : s.position < t.position)
    (hk : kind.opensScope = false) (hpieces : kind.pieces = kind.children)
    (hc : kind.counted = kind.children) :
    Lays (Node.ScopesWithin most) s t [⟨⟨s.offset, max t.lastStop s.offset⟩, kind⟩] :=
  h.flat (h.stops_finish hp) hk hpieces hc

/-- A node that opens a scope around all its pieces. -/
theorem scope (h : Lays (Node.ScopesWithin most) s t kind.children) (hs : Stops s t kind.children stop)
    (hp : kind.pieces = kind.children) (hc : kind.scoped = kind.children) (hb : kind.Braced ⟨s.offset, stop⟩)
    (hclass : kind.classBody? = none) :
    Lays (Node.ScopesWithin (most + 1)) s t [⟨⟨s.offset, stop⟩, kind⟩] := by
  have hsuper : kind.superclass? = none := by cases kind <;> first | rfl | cases hclass
  exact h.node hs (.of_eq hp rfl) hb (by simp [hclass]) (.scope (by simp [hsuper]) (hc ▸ h.holds))

/-- A node of one token. -/
theorem leaf (hs : s.Sound) (hk : s.kind ≠ .endOfInput) (hkind : kind.opensScope = false)
    (hp : kind.pieces = []) (hc : kind.children = []) (hcount : kind.counted = []) :
    Lays (Node.ScopesWithin most) s s.advance
      [⟨⟨s.offset, max s.advance.lastStop s.offset⟩, kind⟩] := by
  have hlays : Lays (Node.ScopesWithin most) s s.advance kind.children := by
    rw [hc]
    exact .nil hs s.follows_advance
  exact hlays.finish (s.position_lt_advance hs.closed hk) hkind (hp.trans hc.symm) (hcount.trans hc.symm)

/-! ### Loops and modes -/

/-- What a loop lays out is what its rounds do. -/
theorem collect {done : ParserState → Bool} {step : Parse (Option Node)} (hs : s.Sound)
    (hstep : ∀ u o v, s.Follows u → u.Sound → step u = .ok o v → Lays P u v o.toList) :
    ∀ {rounds u nodes t}, s.Follows u → collect done step rounds u = .ok nodes t →
      Lays P u t nodes
  | 0, u, nodes, t, hf, h => by
    cases h
    exact .nil (hs.follows hf) (.rfl u)
  | rounds + 1, u, nodes, t, hf, h => by
    have hu := hs.follows hf
    rw [Parse.collect, get_run] at h
    split at h
    · cases h
      exact .nil hu (.rfl u)
    · obtain ⟨o, v, hv, h⟩ := bind_ok.1 h
      obtain ⟨others, w, hw, h⟩ := bind_ok.1 h
      cases h
      have hfirst := hstep u o v hf hu hv
      exact hfirst.append (collect hs hstep (hf.trans hfirst.follows) hw)

theorem collectUntil {done : ParserState → Bool} {step : Parse (Option Node)} (hs : s.Sound)
    (hstep : ∀ u o v, s.Follows u → u.Sound → step u = .ok o v → Lays P u v o.toList)
    {nodes : List Node} (h : collectUntil done step s = .ok nodes t) : Lays P s t nodes :=
  collect hs hstep (.rfl s) h

theorem withNoIn {x : Parse α} {noIn : Bool} {a : α} (h : withNoIn noIn x s = .ok a t)
    (hx : ∀ u, x { s with noIn } = .ok a u → Lays P { s with noIn } u l) : Lays P s t l := by
  rw [Parse.withNoIn] at h
  split at h <;> rename_i hu <;> cases h
  have hlays := hx _ hu
  exact { hlays with
    sound := ⟨hlays.sound.1, hlays.sound.2, hlays.sound.3, hlays.sound.4, hlays.sound.5⟩
    follows := { hlays.follows with noIn := rfl } }

theorem nested {x : Parse α} {a : α} (h : nested x s = .ok a t)
    (hx : ∀ u, s.depth < maxParseDepth → x { s with depth := s.depth + 1 } = .ok a u →
      Lays P { s with depth := s.depth + 1 } u l) : Lays P s t l := by
  obtain ⟨hd, u, hu, rfl⟩ := nested_ok h
  have hlays := hx u hd hu
  have hdepth := hlays.follows.depth
  exact { hlays with
    sound := ⟨hlays.sound.1, hlays.sound.2, hlays.sound.3, hlays.sound.4, hlays.sound.5⟩
    follows := { hlays.follows with depth := by simp only at hdepth ⊢; omega } }

end Lays

/-! ### Productions -/

/-- How many scopes at most lie one in another in what is parsed at a depth. -/
def scopesAt (depth : Nat) : Nat := 3 * (maxParseDepth - depth)

/-- How many more there may be in a production that does not count as deeper itself. -/
def Production.moreScopes : Production → Nat
  | .leftHandSide | .newExpression => 3
  | .method _ => 2
  | _ => 0

/-- The tokens are in order, and the parse is so deep. -/
structure ParserState.SoundAt (depth : Nat) (s : ParserState) : Prop extends s.Sound where
  depth_eq : s.depth = depth

theorem ParserState.SoundAt.follows {depth : Nat} {s t : ParserState} (h : s.SoundAt depth)
    (hf : s.Follows t) : t.SoundAt depth :=
  ⟨h.toSound.follows hf, hf.depth.trans h.depth_eq⟩

/-- The productions of the grammar lay out what they read. -/
structure Grammar.Lays (g : Grammar) : Prop where
  proceeds : g.Proceeds
  reads : g.Reads
  lays : ∀ {q depth s n t}, s.SoundAt depth → g q s = .ok n t →
    Typeahead.Lays (Node.ScopesWithin (scopesAt depth + q.moreScopes)) s t [n]
  methods : ∀ {isAsync s n t}, g (.method isAsync) s = .ok n t → ∃ parts, n.kind = .functionExpression parts

theorem Grammar.Lays.assignment {g : Grammar} (hg : g.Lays) {depth : Nat} {s t : ParserState} {n : Node}
    (hs : s.SoundAt depth) (h : g .assignment s = .ok n t) :
    Typeahead.Lays (Node.ScopesWithin (scopesAt depth)) s t [n] := hg.lays hs h

theorem Grammar.Lays.statement {g : Grammar} (hg : g.Lays) {depth : Nat} {s t : ParserState} {n : Node}
    (hs : s.SoundAt depth) (h : g .statement s = .ok n t) :
    Typeahead.Lays (Node.ScopesWithin (scopesAt depth)) s t [n] := hg.lays hs h

section

variable {g : Grammar} {s t : ParserState} {O : α → Prop} {x : Grammar → Parse α} {a : α}

theorem Grammar.Lays.proceedsOn (hg : g.Lays) (hx : Built 0 s O x) : Typeahead.Proceeds (x g) s :=
  hx.proceeds hg.proceeds s (.rfl s)

/-- What is read and dropped leads on. -/
theorem Grammar.Lays.follows (hg : g.Lays) (hx : Built 0 s O x) (h : x g s = .ok a t) : s.Follows t :=
  (hg.proceedsOn hx).ok h

theorem Grammar.Lays.progress (hg : g.Lays) (hx : Begins 0 s O x) (hs : s.Sound)
    (h : x g s = .ok a t) : s.position < t.position :=
  hx.reads g hg.proceeds hg.reads s (.rfl s) hs.closed a t h

end

theorem ParserState.SoundAt.withNoIn {depth : Nat} {s : ParserState} (h : s.SoundAt depth) (noIn : Bool) :
    ({ s with noIn } : ParserState).SoundAt depth :=
  ⟨h.toSound.of_stream rfl, h.depth_eq⟩

theorem Lays.allowIn {depth : Nat} {P : Node → Prop} {s t : ParserState} {x : Parse α} {a : α}
    {l : α → List Node} (hs : s.SoundAt depth) (h : allowIn x s = .ok a t)
    (hx : ∀ {s t}, s.SoundAt depth → x s = .ok a t → Lays P s t (l a)) : Lays P s t (l a) :=
  .withNoIn h fun _ hrun => hx (hs.withNoIn false) hrun

/-! ### Runs of the simplest parses -/

namespace Parse

variable {s t : ParserState}

theorem run_offset {f : Nat → Parse α} (s : ParserState) : (offset >>= f) s = f s.offset s := rfl

theorem run_next {f : Token → Parse α} (s : ParserState) :
    (next >>= f) s = f s.current s.advance := rfl

theorem map_ok {x : Parse α} {f : α → β} {b : β} :
    (f <$> x) s = .ok b t ↔ ∃ a, x s = .ok a t ∧ f a = b := by
  rw [map_eq_pure_bind, bind_ok]
  constructor
  · rintro ⟨a, u, hu, h⟩
    cases h
    exact ⟨a, hu, rfl⟩
  · rintro ⟨a, ha, rfl⟩
    exact ⟨a, t, ha, rfl⟩

theorem run_nextIf {p : ParserState → Bool} {f : Bool → Parse α} {a : α}
    (h : (nextIf p >>= f) s = .ok a t) :
    (p s = true ∧ f true s.advance = .ok a t) ∨ (p s = false ∧ f false s = .ok a t) := by
  cases hp : p s with
  | true => exact .inl ⟨rfl, (bind_of_ok (nextIf_of_true hp)).symm.trans h⟩
  | false => exact .inr ⟨rfl, (bind_of_ok (nextIf_of_false hp)).symm.trans h⟩

theorem nextIf_follows {p : ParserState → Bool} {b : Bool} (h : nextIf p s = .ok b t) : s.Follows t :=
  (Proceeds.nextIf p).ok h

theorem expectKind_progress {kind : TokenKind} {token : Token} (hk : kind ≠ .endOfInput) (hs : s.Sound)
    (h : expectKind kind s = .ok token t) : s.Follows t ∧ s.position < t.position := by
  obtain ⟨hkind, -, rfl⟩ := expectKind_ok h
  exact ⟨s.follows_advance, s.position_lt_advance hs.closed fun hend => hk (hkind.symm.trans hend)⟩

theorem expect_progress {mark : Punctuator} {token : Token} (hs : s.Sound)
    (h : expect mark s = .ok token t) : s.Follows t ∧ s.position < t.position :=
  expectKind_progress (by simp) hs h

theorem expectReserved_progress {word : String} {token : Token} (hs : s.Sound)
    (h : expectReserved word s = .ok token t) : s.Follows t ∧ s.position < t.position := by
  rw [expectReserved] at h
  split at h <;> rename_i hw <;> cases h
  exact ⟨s.follows_advance,
    s.position_lt_advance hs.closed fun hk => ParserState.not_isStuck_of_atReserved hw (.inl hk)⟩

end Parse

end Typeahead
