/-
# Where faults show

A parse that fails does so at the current token: its fault has the offset of that token, and
nothing is read after it. So the faults that a run collects lie between where it began and where
it ended, each at the start of a token, and a later one at no smaller offset than an earlier one.

Key definitions: `ParserState.Adds`, `Tells`.
Key theorems: `ParserState.Adds.trans`, `Built.tells`, `parseLevel_tells`.
-/
import Typeahead.Proofs.Layout.Run

namespace Typeahead

open Parse Grammar

variable {α β ι : Type} {s t u : ParserState} {g : Grammar}

/-- The faults that were added from `s` to `t`, the latest first, are in the order of their offsets,
which are those of tokens between the two. -/
def ParserState.Adds (s t : ParserState) : Prop :=
  ∃ added, t.faults = added ++ s.faults ∧
    added.Pairwise (fun later earlier => earlier.position ≤ later.position) ∧
    ∀ e ∈ added, s.offset ≤ e.position ∧ e.position ≤ t.offset ∧ ∃ token ∈ s.stream.tokens, e.position = token.start

namespace ParserState.Adds

theorem of_faults (h : t.faults = s.faults) : s.Adds t := ⟨[], h, .nil, by simp⟩

theorem rfl (s : ParserState) : s.Adds s := .of_faults (.refl _)

theorem trans (hs : s.Sound) (hf : s.Follows t) (hf' : t.Follows u) (h : s.Adds t) (h' : t.Adds u) :
    s.Adds u := by
  obtain ⟨added, hadded, hsorted, hplaces⟩ := h
  obtain ⟨more, hmore, hsorted', hplaces'⟩ := h'
  refine ⟨more ++ added, by rw [hmore, hadded, List.append_assoc],
    List.pairwise_append.2 ⟨hsorted', hsorted, fun e he f hf => ?_⟩, fun e he => ?_⟩
  · exact Nat.le_trans (hplaces f hf).2.1 (hplaces' e he).1
  · rcases List.mem_append.1 he with he | he
    · obtain ⟨hfirst, hlast, token, htoken, hstart⟩ := hplaces' e he
      exact ⟨Nat.le_trans (hf.offset_le hs) hfirst, hlast, token, hf.tokens ▸ htoken, hstart⟩
    · obtain ⟨hfirst, hlast, htoken⟩ := hplaces e he
      exact ⟨hfirst, Nat.le_trans hlast (hf'.offset_le (hs.follows hf)), htoken⟩

/-- A fault that shows at the current token is collected. -/
theorem report (s : ParserState) {e : ParseError} (he : e.position = s.offset) : s.Adds (s.report e) := by
  refine ⟨[e], .refl _, List.pairwise_singleton .., fun f hf => ?_⟩
  rw [List.mem_singleton.1 hf, he]
  exact ⟨Nat.le_refl _, Nat.le_refl _, s.current, Array.getElem_mem _, .refl _⟩

end ParserState.Adds

/-- The parse leads on, and tells its faults where they show. -/
structure Tells (x : Parse α) (s : ParserState) : Prop extends Proceeds x s where
  adds : ∀ {a t}, x s = .ok a t → s.Adds t
  fails : ∀ {e t}, x s = .error e t → s.Adds t ∧ e.position = t.offset

/-- All productions tell their faults where the tokens are in order. -/
def Grammar.Tells (g : Grammar) : Prop := ∀ q s, s.Sound → Typeahead.Tells (g q) s

namespace Tells

theorem bind {x : Parse α} {f : α → Parse β} (hs : s.Sound) (hx : Tells x s)
    (hf : ∀ a u, x s = .ok a u → u.Sound → Tells (f a) u) : Tells (x >>= f) s where
  toProceeds := hx.toProceeds.bind fun a u hu => (hf a u hu (hs.follows (hx.ok hu))).toProceeds
  adds h := by
    obtain ⟨a, u, hu, h⟩ := bind_ok.1 h
    have hfollows := hx.ok hu
    have hrest := hf a u hu (hs.follows hfollows)
    exact .trans hs hfollows (hrest.ok h) (hx.adds hu) (hrest.adds h)
  fails h := by
    rcases bind_error.1 h with hu | ⟨a, u, hu, h⟩
    · exact hx.fails hu
    · have hfollows := hx.ok hu
      have hrest := hf a u hu (hs.follows hfollows)
      exact ⟨.trans hs hfollows (hrest.error h) (hx.adds hu) (hrest.fails h).1, (hrest.fails h).2⟩

/-- A parse that collects no fault itself, and fails only where it begins. -/
theorem of_quiet {x : Parse α} (h : Proceeds x s) (ho : ∀ {a t}, x s = .ok a t → t.faults = s.faults)
    (he : ∀ {e t}, x s = .error e t → t = s ∧ e.position = s.offset) : Tells x s where
  toProceeds := h
  adds hrun := .of_faults (ho hrun)
  fails hrun := by
    obtain ⟨rfl, hposition⟩ := he hrun
    exact ⟨.rfl _, hposition⟩

theorem pure (a : α) : Tells (Pure.pure a) s :=
  .of_quiet (.pure a) (fun h => by cases h; rfl) fun h => by cases h

theorem next : Tells next s :=
  .of_quiet .next (fun h => by cases h; rfl) fun h => by cases h

theorem fail {e : ParseError} (he : e.position = s.offset) : Tells (throw e : Parse α) s :=
  .of_quiet (.fail e) (fun h => by cases h) fun h => by cases h; exact ⟨rfl, he⟩

theorem look {f : ParserState → Parse α} (h : Tells (f s) s) : Tells (get >>= f) s :=
  ⟨⟨h.ok, h.error⟩, h.adds, h.fails⟩

theorem nextIf (p : ParserState → Bool) : Tells (nextIf p) s := by
  refine .of_quiet (.nextIf p) (fun h => ?_) fun h => ?_ <;> rw [Parse.nextIf] at h <;> split at h <;>
    cases h <;> rfl

theorem expectKind (kind : TokenKind) : Tells (expectKind kind) s := by
  refine .of_quiet (.expectKind kind) (fun h => ?_) fun h => ?_
  · obtain ⟨-, -, rfl⟩ := expectKind_ok h
    rfl
  · obtain ⟨rfl, rfl⟩ := expectKind_error h
    exact ⟨rfl, rfl⟩

theorem nested {x : Parse α} (h : Tells x { s with depth := s.depth + 1 }) : Tells (nested x) s where
  toProceeds := h.toProceeds.nested
  adds hrun := by
    obtain ⟨-, u, hx, rfl⟩ := nested_ok hrun
    have htold := h.adds hx
    exact htold
  fails hrun := by
    obtain ⟨-, rfl, rfl⟩ | ⟨u, hx, rfl⟩ := nested_error hrun
    · exact ⟨.rfl _, rfl⟩
    · have htold := h.fails hx
      exact htold

theorem withNoIn {x : Parse α} {noIn : Bool} (h : Tells x { s with noIn }) : Tells (withNoIn noIn x) s where
  toProceeds := h.toProceeds.withNoIn
  adds hrun := by
    rw [Parse.withNoIn] at hrun
    split at hrun <;> rename_i hx <;> cases hrun
    have htold := h.adds hx
    exact htold
  fails hrun := by
    rw [Parse.withNoIn] at hrun
    split at hrun <;> rename_i hx <;> cases hrun
    have htold := h.fails hx
    exact htold

/-- The outcome of a parse, a fault at the current token included, and what is done with it. -/
theorem attempt {x : Parse α} {f : Except ParseError α → Parse β} (hs : s.Sound) (hx : Tells x s)
    (hok : ∀ a u, u.Sound → Tells (f (.ok a)) u)
    (he : ∀ e u, s.Follows u → u.Sound → e.position = u.offset → Tells (f (.error e)) u) :
    Tells (attempt x >>= f) s := by
  have hattempt : Tells (Parse.attempt x) s := by
    refine ⟨hx.toProceeds.attempt, fun h => ?_, fun h => ?_⟩ <;> rw [Parse.attempt] at h <;> split at h <;>
      rename_i hrun <;> cases h
    · exact hx.adds hrun
    · exact (hx.fails hrun).1
  refine hattempt.bind hs fun r u hu hsound => ?_
  rw [Parse.attempt] at hu
  split at hu <;> rename_i hrun <;> cases hu
  · exact hok _ _ hsound
  · exact he _ _ (hx.error hrun) hsound (hx.fails hrun).2

/-- A fault is collected, and tokens are skipped. -/
theorem skip (hs : s.Sound) (hr : s.recovering = true) {e : ParseError} (he : e.position = s.offset)
    {skip : ParserState → ParserState} (hskip : ∀ t, ParserState.Follows t (skip t))
    (hfaults : ∀ t, (skip t).faults = t.faults) : Tells (modify fun s => skip (s.report e) : Parse PUnit) s where
  toProceeds := .skip hr e hskip
  adds h := by
    cases h
    exact .trans hs (follows_report hr e) (hskip _) (.report s he) (.of_faults (hfaults _))
  fails h := by cases h

theorem collect {done : ParserState → Bool} {step : Parse (Option α)}
    (h : ∀ u, s.Follows u → u.Sound → Tells step u) :
    ∀ rounds {u}, s.Follows u → u.Sound → Tells (collect done step rounds) u
  | 0, _, _, _ => pure []
  | rounds + 1, u, hf, hu => by
    refine look ?_
    by_cases hd : done u = true
    · rw [if_pos hd]
      exact pure []
    · rw [if_neg hd]
      have hstep := h u hf hu
      exact hstep.bind hu fun _ v hv hsound => (collect h rounds (hf.trans (hstep.ok hv)) hsound).bind hsound
        fun _ _ _ _ => pure _

theorem closeBrace (s : ParserState) : Tells closeBrace s := by
  refine .look ?_
  by_cases h : (s.recovering && s.atEnd) = true
  · rw [if_pos h]
    exact .pure _
  · rw [if_neg h]
    refine ⟨(Proceeds.expectKind _).bind fun _ _ _ => .pure _, fun hrun => ?_, fun hrun => ?_⟩
    · obtain ⟨_, u, hu, hrun⟩ := bind_ok.1 hrun
      cases hrun
      exact (Tells.expectKind _).adds hu
    · rcases bind_error.1 hrun with hu | ⟨_, u, -, hrun⟩
      · exact (Tells.expectKind _).fails hu
      · cases hrun

end Tells

theorem faults_skipRest : ∀ rounds braces (s : ParserState), (skipRest rounds braces s).faults = s.faults
  | 0, _, _ => rfl
  | rounds + 1, braces, s => by
    have hadvance : s.advance.faults = s.faults := rfl
    rw [skipRest]
    repeat' split
    all_goals first | rfl | rw [faults_skipRest, hadvance]

theorem faults_skipStatement (start : Nat) (s : ParserState) : (skipStatement start s).faults = s.faults := by
  rw [skipStatement]
  split <;> exact faults_skipRest ..

theorem faults_skipElement (start : Nat) (s : ParserState) : (skipElement start s).faults = s.faults := by
  rw [skipElement, faults_skipRest]
  split <;> rfl

/-- A statement is read, or skipped with its fault collected. -/
theorem Tells.statementOrSkip {x : Parse Node} (hs : s.Sound) (hr : s.recovering = true) (h : Tells x s) :
    Tells (statementOrSkip x) s :=
  .look (.attempt hs h (fun _ _ _ => .pure _) fun _ _ hf hu he =>
    (Tells.skip hu (hf.recovering.trans hr) he (follows_skipStatement _) (faults_skipStatement _)).bind hu
      fun _ _ _ _ => .pure _)

theorem Tells.listedStatement (hg : g.Tells) (hs : s.Sound) : Tells (listedStatement g) s := by
  refine .look ?_
  by_cases h : s.recovering = true
  · rw [if_pos h]
    exact .statementOrSkip hs h (hg _ _ hs)
  · rw [if_neg h]
    exact (hg _ _ hs).bind hs fun _ _ _ _ => .pure _

/-- A class element is read, or skipped with its fault collected, or ends the parse. -/
theorem Tells.listedElement (h : ∀ s, ParserState.Sound s → Tells (classElement g) s) (hs : s.Sound) :
    Tells (listedElement g) s := by
  refine (nextIf _).bind hs fun a t _ ht => ?_
  cases a with
  | true => exact .pure _
  | false =>
    simp only [Bool.false_eq_true, ↓reduceIte]
    refine .look (.attempt ht (h t ht) (fun _ _ _ => .pure _) fun e u _ hu he => .look ?_)
    by_cases hr : u.recovering = true
    · rw [if_pos hr]
      exact (Tells.skip hu hr he (follows_skipElement _) (faults_skipElement _)).bind hu fun _ _ _ _ => .pure _
    · rw [if_neg hr]
      exact .fail he

/-- Parameters are told, or the parse is back where it began with the faults it had. -/
theorem Tells.arrowParameters? (h : Tells (parameterList g) s) : Tells (arrowParameters? g) s where
  toProceeds := .arrowParameters? h.toProceeds
  adds hrun := by
    rw [Grammar.arrowParameters?] at hrun
    split at hrun
    · cases hrun
      exact .rfl _
    · split at hrun <;> rename_i hp
      · split at hrun <;> cases hrun
        · exact h.adds hp
        · exact .of_faults rfl
      · cases hrun
        exact .of_faults rfl
  fails hrun := by
    obtain ⟨r, t, hr⟩ := arrowParameters?_ok g s
    cases hr.symm.trans hrun

theorem Tells.chooseArrow {inner : Parse ι} {rest : ι → Parse α} {commit : List Node → Parse α}
    (hs : s.Sound) (hp : ∀ rounds t, t.Sound → Tells (parametersFrom g rounds) t)
    (hi : ∀ t, t.Sound → Tells inner t) (hr : ∀ x t, t.Sound → Tells (rest x) t)
    (hc : ∀ params t, t.Sound → Tells (commit params) t) : Tells (chooseArrow g inner rest commit) s := by
  have hlist : Tells (parameterList g) s := (expectKind _).bind hs fun _ t _ ht =>
    .look ((hp _ t ht).bind ht fun _ _ _ hu => (expectKind _).bind hu fun _ _ _ _ => .pure _)
  refine hlist.arrowParameters?.bind hs fun r t _ ht => ?_
  cases r with
  | some params => exact (expectKind _).bind ht fun _ _ _ hu => hc _ _ hu
  | none =>
    refine (expectKind _).bind ht fun _ u _ hu => ?_
    have hu' : ParserState.Sound { u with noIn := false } := ⟨hu.inside, hu.ordered, hu.filled, hu.covers, hu.ends⟩
    exact (withNoIn (hi _ hu')).bind hu fun _ _ _ hv => (expectKind _).bind hv fun _ _ _ hw => hr _ _ hw

end Typeahead
