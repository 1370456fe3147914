/-
# Productions lead on

From whatever state a production that is built starts, it leaves a state that comes after
it, also where it fails: the tokens, the depth and the mode are as before, the place is no
earlier, and the faults and the remembered places are those of before and some more. What is
tried in vain takes the parse back to where it began, which is no earlier either.

Key theorems: `Built.proceeds`, `parseLevel_proceeds`.
-/
import Typeahead.Proofs.Parse.Built

namespace Typeahead

open Parse Grammar

variable {α β : Type}

namespace Proceeds

variable {s : ParserState}

theorem bind {x : Parse α} {f : α → Parse β} (hx : Proceeds x s)
    (hf : ∀ a u, x s = .ok a u → Proceeds (f a) u) : Proceeds (x >>= f) s where
  ok h := by
    obtain ⟨a, u, hxu, hfu⟩ := bind_ok.1 h
    exact (hx.ok hxu).trans ((hf a u hxu).ok hfu)
  error h := by
    rcases bind_error.1 h with hxu | ⟨a, u, hxu, hfu⟩
    · exact hx.error hxu
    · exact (hx.ok hxu).trans ((hf a u hxu).error hfu)

/-- A parse that reads nothing or fails. -/
theorem of_stay {x : Parse α} (ho : ∀ a t, x s = .ok a t → t = s ∨ t = s.advance)
    (he : ∀ e t, x s = .error e t → t = s) : Proceeds x s where
  ok h := by
    rcases ho _ _ h with rfl | rfl
    · exact .rfl _
    · exact s.follows_advance
  error h := by
    rw [he _ _ h]
    exact .rfl _

theorem next : Proceeds next s :=
  of_stay (fun a t h => by cases h; exact .inr rfl) fun e t h => by cases h

theorem pure (a : α) : Proceeds (Pure.pure a) s :=
  of_stay (fun _ _ h => by cases h; exact .inl rfl) fun _ _ h => by cases h

theorem fail (e : ParseError) : Proceeds (throw e : Parse α) s :=
  of_stay (fun _ _ h => by cases h) fun _ _ h => by cases h; rfl

theorem look {f : ParserState → Parse α} (h : Proceeds (f s) s) : Proceeds (get >>= f) s :=
  ⟨h.ok, h.error⟩

theorem expectKind (kind : TokenKind) : Proceeds (expectKind kind) s := by
  refine of_stay (fun a t h => ?_) fun e t h => ?_ <;> rw [Parse.expectKind] at h <;> split at h <;>
    cases h <;> simp

theorem attempt {x : Parse α} (h : Proceeds x s) : Proceeds (attempt x) s := by
  constructor <;> intro a t hrun <;> rw [Parse.attempt] at hrun <;> split at hrun <;> rename_i hx <;>
    cases hrun
  · exact h.ok hx
  · exact h.error hx

theorem nextIf (p : ParserState → Bool) : Proceeds (nextIf p) s := by
  refine of_stay (fun a t h => ?_) fun e t h => ?_ <;> rw [Parse.nextIf] at h <;> split at h <;>
    cases h <;> simp

theorem nested {x : Parse α} (h : Proceeds x { s with depth := s.depth + 1 }) :
    Proceeds (nested x) s := by
  constructor <;> intro a t hrun
  · obtain ⟨-, u, hx, rfl⟩ := nested_ok hrun
    have hf := h.ok hx
    exact { hf with depth := by have := hf.depth; simp only at this ⊢; omega }
  · obtain ⟨-, -, rfl⟩ | ⟨u, hx, rfl⟩ := nested_error hrun
    · exact .rfl _
    · have hf := h.error hx
      exact { hf with depth := by have := hf.depth; simp only at this ⊢; omega }

theorem withNoIn {x : Parse α} {noIn : Bool} (h : Proceeds x { s with noIn }) :
    Proceeds (withNoIn noIn x) s := by
  constructor <;> intro a t hrun <;> rw [Parse.withNoIn] at hrun <;> split at hrun <;> rename_i hx <;>
    cases hrun
  · exact { h.ok hx with noIn := rfl }
  · exact { h.error hx with noIn := rfl }

theorem collect {done : ParserState → Bool} {step : Parse (Option α)} (h : ∀ t, Proceeds step t) :
    ∀ rounds s, Proceeds (collect done step rounds) s
  | 0, _ => pure []
  | rounds + 1, s => by
    refine look ?_
    by_cases hd : done s = true
    · rw [if_pos hd]
      exact pure []
    · rw [if_neg hd]
      exact (h s).bind fun _ u _ => (collect h rounds u).bind fun _ _ _ => pure _

end Proceeds

/-- A clean run of two parses is a clean run of each. -/
theorem CleanRun.of_bind {x : Parse α} {f : α → Parse β} {s t : ParserState} {b : β}
    (h : CleanRun (x >>= f) s b t) (hx : Proceeds x s) (hf : ∀ a u, Proceeds (f a) u) :
    ∃ a u, CleanRun x s a u ∧ CleanRun (f a) u b t := by
  obtain ⟨hrun, hc⟩ := h
  obtain ⟨a, u, hxu, hfu⟩ := bind_ok.1 hrun
  obtain ⟨h1, h2⟩ := faults_between (hx.ok hxu).faults ((hf a u).ok hfu).faults hc
  exact ⟨a, u, ⟨hxu, h1⟩, hfu, h2⟩

theorem CleanRun.of_pure {a b : α} {s t : ParserState} (h : CleanRun (pure a) s b t) :
    b = a ∧ t = s := by
  obtain ⟨hrun, _⟩ := h
  cases hrun
  exact ⟨rfl, rfl⟩

/-- A clean run of a loop ends where `done` holds, or takes one step and goes on. -/
theorem CleanRun.of_collect {done : ParserState → Bool} {step : Parse (Option α)} {rounds : Nat}
    {s t : ParserState} {l : List α} (h : CleanRun (Parse.collect done step rounds) s l t)
    (hs : ∀ u, Proceeds step u) : (t = s ∧ (done s = true ∨ rounds = 0)) ∨
      ∃ n o u rest, rounds = n + 1 ∧ done s = false ∧ CleanRun step s o u ∧
        CleanRun (Parse.collect done step n) u rest t ∧ l = o.toList ++ rest := by
  cases rounds with
  | zero => exact .inl ⟨h.of_pure.2, .inr rfl⟩
  | succ n =>
    cases hd : done s with
    | true =>
      have h' : CleanRun (pure []) s l t := by
        simpa only [Parse.collect, CleanRun, get_run, hd, ↓reduceIte] using h
      exact .inl ⟨h'.of_pure.2, .inl rfl⟩
    | false =>
      have h' : CleanRun (step >>= fun o => Parse.collect done step n >>= fun rest =>
          pure (o.toList ++ rest)) s l t := by
        simpa only [Parse.collect, CleanRun, get_run, hd, Bool.false_eq_true, ↓reduceIte] using h
      obtain ⟨o, u, ho, h'⟩ := h'.of_bind (hs s) fun _ _ =>
        (Proceeds.collect hs _ _).bind fun _ _ _ => .pure _
      obtain ⟨rest, v, hrest, h'⟩ := h'.of_bind (Proceeds.collect hs _ _) fun _ _ => .pure _
      obtain ⟨rfl, rfl⟩ := h'.of_pure
      exact .inr ⟨n, o, u, rest, rfl, rfl, ho, hrest, rfl⟩

/-! ### Skipping -/

theorem follows_skipRest : ∀ rounds braces (s : ParserState), s.Follows (skipRest rounds braces s)
  | 0, _, s => .rfl s
  | rounds + 1, braces, s => by
    rw [skipRest]
    split
    · exact .rfl s
    · split
      · exact s.follows_advance.trans (follows_skipRest ..)
      · split
        · exact s.follows_advance.trans (follows_skipRest ..)
        · split
          · exact .rfl s
          · split
            · exact s.follows_advance
            · split
              · exact .rfl s
              · exact s.follows_advance.trans (follows_skipRest ..)

theorem follows_skipStatement (start : Nat) (s : ParserState) : s.Follows (skipStatement start s) := by
  rw [skipStatement]
  split
  · exact s.follows_advance.trans (follows_skipRest ..)
  · exact follows_skipRest ..

theorem follows_skipElement (start : Nat) (s : ParserState) : s.Follows (skipElement start s) := by
  rw [skipElement]
  split
  · exact s.follows_advance.trans (follows_skipRest ..)
  · exact follows_skipRest ..

/-- A fault is collected only while recovering. -/
theorem follows_report {s : ParserState} (h : s.recovering = true) (fault : ParseError) :
    s.Follows (s.report fault) :=
  { ParserState.Follows.rfl s with
    faults := List.suffix_cons _ _
    strict := fun hs => by rw [h] at hs; cases hs }

/-- What is skipped after a fault is collected. -/
theorem Proceeds.skip {s : ParserState} (hr : s.recovering = true) (fault : ParseError)
    {skip : ParserState → ParserState} (hs : ∀ t, ParserState.Follows t (skip t)) :
    Proceeds (modify fun s => skip (s.report fault) : Parse PUnit) s where
  ok h := by
    cases h
    exact (follows_report hr fault).trans (hs _)
  error h := by cases h

theorem Proceeds.statementOrSkip {x : Parse Node} {s : ParserState} (hr : s.recovering = true)
    (h : Proceeds x s) : Proceeds (statementOrSkip x) s := by
  refine look (h.attempt.bind fun r u hu => ?_)
  cases r with
  | ok node => exact pure _
  | error fault =>
    have hur : u.recovering = true := (h.attempt.ok hu).recovering.trans hr
    exact (skip hur fault (follows_skipStatement _)).bind fun _ _ _ => pure _

theorem Proceeds.arrowParameters? {g : Grammar} {s : ParserState} (h : Proceeds (parameterList g) s) :
    Proceeds (arrowParameters? g) s := by
  have hremember : ∀ t, s.Follows t → s.Follows (rememberFailure s t) := fun t ht =>
    { ht with
      tokens := rfl
      position := Nat.le_refl _
      bound := Nat.le_max_left _ _
      faults := List.suffix_refl _
      strict := fun _ => rfl
      arrows := fun p hp => List.mem_cons_of_mem _ (ht.arrows hp) }
  constructor <;> intro a t hrun <;> rw [Grammar.arrowParameters?] at hrun <;> split at hrun
  · cases hrun
    exact .rfl s
  · split at hrun <;> rename_i hp
    · split at hrun <;> cases hrun
      · exact h.ok hp
      · exact hremember _ (h.ok hp)
    · cases hrun
      exact hremember _ (h.error hp)
  · cases hrun
  · split at hrun
    · split at hrun <;> cases hrun
    · cases hrun

/-! ### Every step leads on -/

theorem Proceeds.parameterList {g : Grammar} {s : ParserState}
    (h : ∀ rounds t, Proceeds (parametersFrom g rounds) t) : Proceeds (parameterList g) s :=
  (expectKind _).bind fun _ u _ => look ((h _ u).bind fun _ _ _ => (expectKind _).bind fun _ _ _ =>
    pure _)

theorem proceeds_closeBrace (s : ParserState) : Proceeds closeBrace s := by
  refine .look ?_
  by_cases h : (s.recovering && s.atEnd) = true
  · rw [if_pos h]
    exact .pure _
  · rw [if_neg h]
    exact (Proceeds.expectKind _).bind fun _ _ _ => .pure _

theorem Proceeds.listedStatement {g : Grammar} (hg : g.Proceeds) (s : ParserState) :
    Proceeds (listedStatement g) s := by
  refine .look ?_
  by_cases h : s.recovering = true
  · rw [if_pos h]
    exact .statementOrSkip h (hg _ _)
  · rw [if_neg h]
    exact (hg _ _).bind fun _ _ _ => .pure _

theorem Proceeds.listedElement {g : Grammar} (h : ∀ s, Proceeds (classElement g) s) (s : ParserState) :
    Proceeds (listedElement g) s := by
  refine (nextIf _).bind fun a t _ => ?_
  cases a with
  | true => exact pure _
  | false =>
    refine look ((h t).attempt.bind fun r u hu => ?_)
    cases r with
    | ok element => exact pure _
    | error fault =>
      refine look ?_
      by_cases hr : u.recovering = true
      · simp only [hr, ↓reduceIte]
        exact (skip hr fault (follows_skipElement _)).bind fun _ _ _ => pure _
      · simp only [hr, Bool.false_eq_true, ↓reduceIte]
        exact fail _

theorem Proceeds.chooseArrow {ι : Type} {g : Grammar} {inner : Parse ι} {rest : ι → Parse α}
    {commit : List Node → Parse α} (hp : ∀ rounds t, Proceeds (parametersFrom g rounds) t)
    (hi : ∀ t, Proceeds inner t) (hr : ∀ x t, Proceeds (rest x) t)
    (hc : ∀ params t, Proceeds (commit params) t) (s : ParserState) :
    Proceeds (chooseArrow g inner rest commit) s := by
  refine (arrowParameters? (parameterList hp)).bind fun r t _ => ?_
  cases r with
  | some params => exact (expectKind _).bind fun _ _ _ => hc _ _
  | none => exact (expectKind _).bind fun _ _ _ => (withNoIn (hi _)).bind fun _ _ _ =>
      (expectKind _).bind fun _ _ _ => hr _ _

/-- **What is built leads on**, if the productions it calls on do. -/
theorem Built.proceeds {last : Nat} {s : ParserState} {O : α → Prop} {x : Grammar → Parse α}
    (h : Built last s O x) {g : Grammar} (hg : g.Proceeds) :
    ∀ t, s.SameView t → Proceeds (x g) t := by
  induction h with
  | pure a => exact fun t _ => .pure a
  | bind _ _ _ ihx ihf => exact fun t ht => (ihx t ht).bind fun a u _ => ihf a u u (.rfl u)
  | same hxy _ ih =>
    intro t ht
    obtain ⟨ho, he⟩ := ih t ht
    rw [← hxy g t ht] at ho he
    exact ⟨ho, he⟩
  | weaken _ _ ih => exact ih
  | @next s α O f _ _ ih =>
    intro t ht
    refine Proceeds.next.bind fun a u hu => ?_
    cases hu
    rw [ht.current]
    exact ih _ ht.advance
  | nextArrow _ _ => exact fun t _ => Proceeds.next.bind fun _ _ _ => .next
  | fail e _ => exact fun t _ => .fail e
  | call q => exact fun t _ => hg q t
  | nested _ ih => exact fun t ht => .nested (ih _ ht)
  | withNoIn noIn _ ih => exact fun t ht => .withNoIn (ih _ ⟨ht.1, rfl⟩)
  | closeBrace => exact fun t _ => proceeds_closeBrace t
  | listedStatement => exact fun t _ => .listedStatement hg t
  | listedElement _ ih => exact fun t _ => .listedElement (fun u => ih u u (.rfl u)) t
  | chooseArrow _ _ _ _ _ ihi ihp ihr ihc =>
    exact fun t _ => .chooseArrow (fun rounds u => ihp rounds u u (.rfl u))
      (fun u => ihi u u (.rfl u)) (fun x u => ihr x u u (.rfl u)) (fun ps u => ihc ps u u (.rfl u)) t

end Typeahead
