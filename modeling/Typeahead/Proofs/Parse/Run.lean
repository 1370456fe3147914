/-
# Runs of a parse

What a parse leads to from a state. A run that succeeds with no new fault is clean. Whatever
a parse does, the state it leaves comes after the one it began in: the tokens, the depth and
the mode are the same, the place is no earlier, and faults and remembered places only grow.

Key definitions: `SameView`, `Follows`, `IsStuck`, `CleanRun`.
Key theorems: `bind_ok`, `bind_error`, `Follows.trans`, `CleanRun.bind_iff`.
-/
import Typeahead.Grammar.Script
import Mathlib.Tactic.Common

namespace Typeahead

variable {α β : Type}

namespace Parse

theorem bind_ok {x : Parse α} {f : α → Parse β} {s t : ParserState} {b : β} :
    (x >>= f) s = .ok b t ↔ ∃ a u, x s = .ok a u ∧ f a u = .ok b t := by
  simp only [bind, EStateM.bind]
  cases x s <;> simp

theorem bind_error {x : Parse α} {f : α → Parse β} {s t : ParserState} {e : ParseError} :
    (x >>= f) s = .error e t ↔
      x s = .error e t ∨ ∃ a u, x s = .ok a u ∧ f a u = .error e t := by
  simp only [bind, EStateM.bind]
  cases x s <;> simp

theorem bind_of_ok {x : Parse α} {f : α → Parse β} {s u : ParserState} {a : α}
    (h : x s = .ok a u) : (x >>= f) s = f a u := by
  simp only [bind, EStateM.bind, h]

theorem bind_of_error {x : Parse α} {f : α → Parse β} {s u : ParserState} {e : ParseError}
    (h : x s = .error e u) : (x >>= f) s = .error e u := by
  simp only [bind, EStateM.bind, h]

theorem bind_of_eq {x y : Parse α} {f : α → Parse β} {s t : ParserState} (h : x s = y t) :
    (x >>= f) s = (y >>= f) t := by
  simp only [bind, EStateM.bind, h]

theorem nextIf_of_true {p : ParserState → Bool} {s : ParserState} (h : p s = true) :
    nextIf p s = .ok true s.advance := by rw [nextIf, if_pos h]

theorem nextIf_of_false {p : ParserState → Bool} {s : ParserState} (h : p s = false) :
    nextIf p s = .ok false s := by rw [nextIf, if_neg (by simp [h])]

theorem nextMark_of_true {mark : Punctuator} {s : ParserState} (h : s.atMark mark = true) :
    nextMark mark s = .ok true s.advance := nextIf_of_true h

theorem nextMark_of_false {mark : Punctuator} {s : ParserState} (h : s.atMark mark = false) :
    nextMark mark s = .ok false s := nextIf_of_false h

theorem expect_of_atMark {mark : Punctuator} {s : ParserState} (h : s.atMark mark = true) :
    expect mark s = .ok s.current s.advance := if_pos h

theorem expectKind_ok {kind : TokenKind} {s t : ParserState} {a : Token} (h : expectKind kind s = .ok a t) :
    s.kind = kind ∧ a = s.current ∧ t = s.advance := by
  rw [expectKind] at h
  split at h <;> rename_i hk <;> cases h
  exact ⟨beq_iff_eq.1 hk, rfl, rfl⟩

theorem expect_ok {mark : Punctuator} {s t : ParserState} {a : Token} (h : expect mark s = .ok a t) :
    s.kind = .punct mark ∧ a = s.current ∧ t = s.advance :=
  expectKind_ok h

theorem expectKind_error {kind : TokenKind} {s t : ParserState} {e : ParseError}
    (h : expectKind kind s = .error e t) : e = s.unexpected kind ∧ t = s := by
  rw [expectKind] at h
  split at h <;> cases h
  exact ⟨rfl, rfl⟩

theorem expect_error {mark : Punctuator} {s t : ParserState} {e : ParseError}
    (h : expect mark s = .error e t) : t = s :=
  (expectKind_error h).2

theorem withNoIn_of_ok {x : Parse α} {noIn : Bool} {s t : ParserState} {a : α}
    (h : x { s with noIn } = .ok a t) : withNoIn noIn x s = .ok a { t with noIn := s.noIn } := by
  rw [withNoIn, h]

theorem nested_of_ok {x : Parse α} {s t : ParserState} {a : α} (hd : s.depth < maxParseDepth)
    (h : x { s with depth := s.depth + 1 } = .ok a t) :
    nested x s = .ok a { t with depth := t.depth - 1 } := by
  rw [nested, if_neg (by omega), h]

theorem nested_of_error {x : Parse α} {s t : ParserState} {e : ParseError} (hd : s.depth < maxParseDepth)
    (h : x { s with depth := s.depth + 1 } = .error e t) :
    nested x s = .error e { t with depth := t.depth - 1 } := by
  rw [nested, if_neg (by omega), h]

theorem nested_ok {x : Parse α} {s t : ParserState} {a : α} (h : nested x s = .ok a t) :
    s.depth < maxParseDepth ∧
      ∃ u, x { s with depth := s.depth + 1 } = .ok a u ∧ t = { u with depth := u.depth - 1 } := by
  rw [nested] at h
  split at h
  · cases h
  · split at h <;> cases h
    exact ⟨Nat.lt_of_not_le ‹_›, _, ‹_›, rfl⟩

theorem nested_error {x : Parse α} {s t : ParserState} {e : ParseError} (h : nested x s = .error e t) :
    maxParseDepth ≤ s.depth ∧ e = .nestingTooDeep s.offset ∧ t = s ∨
      ∃ u, x { s with depth := s.depth + 1 } = .error e u ∧ t = { u with depth := u.depth - 1 } := by
  rw [nested] at h
  split at h
  · cases h
    exact .inl ⟨‹_›, rfl, rfl⟩
  · split at h <;> cases h
    exact .inr ⟨_, ‹_›, rfl⟩

theorem get_run {f : ParserState → Parse α} (s : ParserState) : (get >>= f) s = f s s := rfl

theorem attempt_of_ok {x : Parse α} {s t : ParserState} {a : α} (h : x s = .ok a t) :
    attempt x s = .ok (.ok a) t := by rw [attempt, h]

theorem attempt_of_error {x : Parse α} {s t : ParserState} {e : ParseError} (h : x s = .error e t) :
    attempt x s = .ok (.error e) t := by rw [attempt, h]

end Parse

/-! ### Steps of lists -/

section

open Parse Grammar

variable {g : Grammar} {s t : ParserState}

/-- A brace is closed by itself, or by the end of the input while recovering. -/
theorem closeBrace_ok {stop : Nat} : closeBrace s = .ok stop t ↔
    ((s.recovering && s.atEnd) = true ∧ stop = s.current.stop + 1 ∧ t = s) ∨
      ((s.recovering && s.atEnd) = false ∧ s.kind = .punct .closeBrace ∧ stop = s.current.stop ∧
        t = s.advance) := by
  rw [closeBrace, get_run]
  cases hend : s.recovering && s.atEnd with
  | true =>
    constructor
    · intro h
      cases h
      exact .inl ⟨rfl, rfl, rfl⟩
    · rintro (⟨-, rfl, rfl⟩ | ⟨h, -⟩)
      · rfl
      · cases h
  | false =>
    rw [if_neg Bool.false_ne_true]
    constructor
    · intro h
      obtain ⟨token, u, hu, h⟩ := bind_ok.1 h
      obtain ⟨hbrace, rfl, rfl⟩ := expect_ok hu
      cases h
      exact .inr ⟨rfl, hbrace, rfl, rfl⟩
    · rintro (⟨h, -⟩ | ⟨-, hbrace, rfl, rfl⟩)
      · cases h
      · exact bind_of_ok (expect_of_atMark (beq_iff_eq.2 hbrace))

theorem statementOrSkip_of_ok {x : Parse Node} {n : Node} (h : x s = .ok n t) :
    statementOrSkip x s = .ok (some n) t :=
  bind_of_ok (attempt_of_ok h)

theorem statementOrSkip_of_error {x : Parse Node} {e : ParseError} (h : x s = .error e t) :
    statementOrSkip x s = .ok none (skipStatement s.position (t.report e)) :=
  bind_of_ok (attempt_of_error h)

/-- A statement is read, or skipped with its fault collected: the list goes on. -/
theorem statementOrSkip_cases (x : Parse Node) (s : ParserState) :
    (∃ n t, x s = .ok n t ∧ statementOrSkip x s = .ok (some n) t) ∨
      ∃ e t, x s = .error e t ∧ statementOrSkip x s = .ok none (skipStatement s.position (t.report e)) := by
  cases h : x s with
  | ok n t => exact .inl ⟨n, t, rfl, statementOrSkip_of_ok h⟩
  | error e t => exact .inr ⟨e, t, rfl, statementOrSkip_of_error h⟩

theorem listedStatement_of_recovering (hs : s.recovering = true) :
    listedStatement g s = statementOrSkip (g .statement) s := by
  rw [listedStatement, get_run, if_pos hs]

theorem listedStatement_of_ok {n : Node} (h : g .statement s = .ok n t) :
    listedStatement g s = .ok (some n) t := by
  rw [listedStatement, get_run]
  split
  · exact statementOrSkip_of_ok h
  · exact bind_of_ok h

/-- A statement is read; or it is skipped with its fault collected, or ends the list, as the parse
recovers or not. -/
theorem listedStatement_cases (g : Grammar) (s : ParserState) :
    (∃ n t, g .statement s = .ok n t ∧ listedStatement g s = .ok (some n) t) ∨
      ∃ e t, g .statement s = .error e t ∧
        (s.recovering = true ∧ listedStatement g s = .ok none (skipStatement s.position (t.report e)) ∨
          s.recovering = false ∧ listedStatement g s = .error e t) := by
  cases h : g .statement s with
  | ok n t => exact .inl ⟨n, t, rfl, listedStatement_of_ok h⟩
  | error e t =>
    refine .inr ⟨e, t, rfl, ?_⟩
    rw [listedStatement, get_run]
    cases hr : s.recovering with
    | true => exact .inl ⟨rfl, statementOrSkip_of_error h⟩
    | false => exact .inr ⟨rfl, bind_of_error h⟩

theorem listedElement_of_semicolon (hs : s.atMark .semicolon = true) :
    listedElement g s = .ok none s.advance :=
  bind_of_ok (nextMark_of_true hs)

theorem listedElement_of_ok {o : Option Node} (hs : s.atMark .semicolon = false)
    (h : classElement g s = .ok o t) : listedElement g s = .ok o t := by
  rw [listedElement, bind_of_ok (nextMark_of_false hs)]
  exact bind_of_ok (attempt_of_ok h)

theorem listedElement_of_error {e : ParseError} (hs : s.atMark .semicolon = false)
    (h : classElement g s = .error e t) : listedElement g s =
      if t.recovering then .ok none (skipElement s.position (t.report e)) else .error e t := by
  rw [listedElement, bind_of_ok (nextMark_of_false hs)]
  refine (bind_of_ok (attempt_of_error h)).trans ?_
  simp only [get_run]
  split <;> rfl

/-- A class element is a semicolon, or is read; or it is skipped with its fault collected, or ends
the list, as the parse recovers or not. -/
theorem listedElement_cases (g : Grammar) (s : ParserState) :
    (s.atMark .semicolon = true ∧ listedElement g s = .ok none s.advance) ∨
      s.atMark .semicolon = false ∧
        ((∃ o t, classElement g s = .ok o t ∧ listedElement g s = .ok o t) ∨
          ∃ e t, classElement g s = .error e t ∧
            (t.recovering = true ∧ listedElement g s = .ok none (skipElement s.position (t.report e)) ∨
              t.recovering = false ∧ listedElement g s = .error e t)) := by
  cases hs : s.atMark .semicolon with
  | true => exact .inl ⟨rfl, listedElement_of_semicolon hs⟩
  | false =>
    refine .inr ⟨rfl, ?_⟩
    cases h : classElement g s with
    | ok o t => exact .inl ⟨o, t, rfl, listedElement_of_ok hs h⟩
    | error e t =>
      refine .inr ⟨e, t, rfl, ?_⟩
      rw [listedElement_of_error hs h]
      cases hr : t.recovering with
      | true => exact .inl ⟨rfl, rfl⟩
      | false => exact .inr ⟨rfl, rfl⟩

end

namespace ParserState

/-- The states read the same: the tokens ahead, and whether `in` is an operator. -/
def SameView (s t : ParserState) : Prop := t.stream = s.stream ∧ t.noIn = s.noIn

theorem SameView.rfl (s : ParserState) : s.SameView s := ⟨.refl _, .refl _⟩

theorem SameView.trans {s t u : ParserState} (h : s.SameView t) (h' : t.SameView u) :
    s.SameView u := ⟨h'.1.trans h.1, h'.2.trans h.2⟩

namespace SameView

variable {s t : ParserState}

theorem kind (h : s.SameView t) : t.kind = s.kind := by
  rw [ParserState.kind, current, h.1]
  rfl

theorem current (h : s.SameView t) : t.current = s.current := by
  rw [ParserState.current, h.1, ParserState.current]

theorem advance (h : s.SameView t) : s.advance.SameView t.advance :=
  ⟨congrArg TokenStream.advance h.1, h.2⟩

theorem atMark (h : s.SameView t) (mark : Punctuator) : t.atMark mark = s.atMark mark := by
  rw [ParserState.atMark, h.kind, ParserState.atMark]

theorem atImpliedSemicolon (h : s.SameView t) : t.atImpliedSemicolon = s.atImpliedSemicolon := by
  simp only [ParserState.atImpliedSemicolon, h.atMark, atEnd, h.current, h.1]

theorem unexpected (h : s.SameView t) (kind : TokenKind) : t.unexpected kind = s.unexpected kind := by
  simp only [ParserState.unexpected, h.kind, offset, h.current]

end SameView

/-- The states differ at most in their faults and in what they remember. -/
structure Alike (s t : ParserState) : Prop where
  view : s.SameView t
  depth : t.depth = s.depth
  recovering : t.recovering = s.recovering

namespace Alike

theorem rfl (s : ParserState) : s.Alike s := ⟨.rfl s, .refl _, .refl _⟩

theorem advance {s t : ParserState} (h : s.Alike t) : s.advance.Alike t.advance :=
  ⟨h.view.advance, h.depth, h.recovering⟩

theorem withNoIn {s t : ParserState} (h : s.Alike t) (noIn : Bool) :
    ParserState.Alike { s with noIn } { t with noIn } :=
  ⟨⟨h.view.1, .refl _⟩, h.depth, h.recovering⟩

theorem endsBlock {s t : ParserState} (h : s.Alike t) :
    (t.recovering && t.atEnd) = (s.recovering && s.atEnd) := by
  rw [h.recovering, atEnd, h.view.1, atEnd]

end Alike

theorem atMark_iff {s : ParserState} {mark : Punctuator} :
    s.atMark mark = true ↔ s.kind = .punct mark := beq_iff_eq

/-- At the end of the input or at `=>`: nothing begins there. -/
def IsStuck (s : ParserState) : Prop := s.kind = .endOfInput ∨ s.kind = .punct .arrow

theorem SameView.isStuck {s t : ParserState} (h : s.SameView t) : t.IsStuck ↔ s.IsStuck := by
  rw [IsStuck, IsStuck, h.kind]

theorem not_isStuck {s : ParserState} {k : TokenKind} (h : s.kind = k) (he : k ≠ .endOfInput)
    (ha : k ≠ .punct .arrow) : ¬ s.IsStuck := by
  rintro (h' | h')
  · exact he (h.symm.trans h')
  · exact ha (h.symm.trans h')

theorem not_isStuck_of_atMark {s : ParserState} {mark : Punctuator} (h : s.atMark mark = true)
    (ha : mark ≠ .arrow) : ¬ s.IsStuck :=
  not_isStuck (beq_iff_eq.1 h) (by simp) (by simpa using ha)

theorem not_isStuck_of_atKeyword {s : ParserState} {word : Keyword} (h : s.atKeyword word = true) :
    ¬ s.IsStuck :=
  not_isStuck (beq_iff_eq.1 h) (by simp) (by simp)

theorem not_isStuck_of_atReserved {s : ParserState} {word : String} (h : s.atReserved word = true) :
    ¬ s.IsStuck := by
  rw [atReserved, Token.isReserved, Bool.and_eq_true, beq_iff_eq] at h
  exact not_isStuck (k := .reserved) h.1 (by simp) (by simp)

/-- The state `t` comes after `s` in a parse. -/
structure Follows (s t : ParserState) : Prop where
  tokens : t.stream.tokens = s.stream.tokens
  noIn : t.noIn = s.noIn
  depth : t.depth = s.depth
  recovering : t.recovering = s.recovering
  remembers : t.remembersArrows = s.remembersArrows
  position : s.position ≤ t.position
  bound : t.position ≤ max s.position s.stream.lastIndex
  faults : s.faults <:+ t.faults
  strict : s.recovering = false → t.faults = s.faults
  arrows : s.failedArrows ⊆ t.failedArrows

namespace Follows

theorem rfl (s : ParserState) : s.Follows s :=
  ⟨.refl _, .refl _, .refl _, .refl _, .refl _, Nat.le_refl _, Nat.le_max_left _ _, List.suffix_refl _,
    fun _ => .refl _, fun _ h => h⟩

theorem trans {s t u : ParserState} (h : s.Follows t) (h' : t.Follows u) : s.Follows u where
  tokens := h'.tokens.trans h.tokens
  noIn := h'.noIn.trans h.noIn
  depth := h'.depth.trans h.depth
  recovering := h'.recovering.trans h.recovering
  remembers := h'.remembers.trans h.remembers
  position := Nat.le_trans h.position h'.position
  bound := by
    have hlast : t.stream.lastIndex = s.stream.lastIndex := by
      rw [TokenStream.lastIndex, h.tokens, TokenStream.lastIndex]
    have := h.bound
    have := h'.bound
    omega
  faults := h.faults.trans h'.faults
  strict hs := (h'.strict (h.recovering.trans hs)).trans (h.strict hs)
  arrows := fun _ hp => h'.arrows (h.arrows hp)

end Follows

theorem Alike.of_follows {s t s' t' : ParserState} (h : s.Alike t) (hs : s.Follows s') (ht : t.Follows t')
    (hstream : t'.stream = s'.stream) : s'.Alike t' where
  view := ⟨hstream, ht.noIn.trans (h.view.2.trans hs.noIn.symm)⟩
  depth := ht.depth.trans (h.depth.trans hs.depth.symm)
  recovering := ht.recovering.trans (h.recovering.trans hs.recovering.symm)

theorem follows_advance (s : ParserState) : s.Follows s.advance where
  tokens := s.stream.tokens_advance
  noIn := rfl
  depth := rfl
  recovering := rfl
  remembers := rfl
  position := s.stream.position_le_advance
  bound := by
    rw [position, advance, TokenStream.advance]
    split
    · rename_i h
      exact Nat.le_trans h (Nat.le_max_right _ _)
    · exact Nat.le_max_left _ _
  faults := List.suffix_refl _
  strict _ := rfl
  arrows _ h := h

end ParserState

/-- Whatever the parse does from the state, it leaves a state that comes after it. -/
structure Proceeds (x : Parse α) (s : ParserState) : Prop where
  ok : ∀ {a t}, x s = .ok a t → s.Follows t
  error : ∀ {e t}, x s = .error e t → s.Follows t

/-- All productions lead on from the states they begin in. -/
def Grammar.Proceeds (g : Grammar) : Prop := ∀ q s, Typeahead.Proceeds (g q) s

/-- A run that succeeds and meets no fault. -/
def CleanRun (x : Parse α) (s : ParserState) (a : α) (t : ParserState) : Prop :=
  x s = .ok a t ∧ t.faults = s.faults

/-- A run is clean wherever it does the same. -/
theorem CleanRun.of_eq {x y : Parse α} {s t u : ParserState} {a : α} (h : CleanRun x s a t)
    (he : x s = y u) (hf : u.faults = s.faults) : CleanRun y u a t :=
  ⟨he.symm.trans h.1, h.2.trans hf.symm⟩

/-- Faults that were met on the way are still there at the end. -/
theorem faults_between {s t u : ParserState} (h : s.faults <:+ t.faults) (h' : t.faults <:+ u.faults)
    (hu : u.faults = s.faults) : t.faults = s.faults ∧ u.faults = t.faults := by
  have hlen := h.length_le
  have hlen' := h'.length_le
  rw [hu] at h' hlen'
  have heq : s.faults = t.faults := h.eq_of_length (by omega)
  exact ⟨heq.symm, hu.trans heq⟩

end Typeahead
