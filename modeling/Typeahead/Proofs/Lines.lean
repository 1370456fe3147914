/-
# Offsets and places

The lines of a text follow one another in it: each is a piece without a line terminator, and a
terminator parts it from the next (`LinesOf`). The search for the line of an offset stops at the
first line that starts behind it, and there the offset lies in the line before or in its terminator.
So an offset and its place name the same point of the text, but for the offset between the two
characters of one terminator, which has the place of the line's end.

Key definitions: `EndsLine`, `LinesOf`, `SplitsTerminator`, `Position.NoLater`.
Key theorems: `linesOf_linesFrom`, `LinesOf.lastStarting_eq`, `LinesOf.offset_lastStarting`,
`LineMap.position_offset_inverse`.
-/
import Mathlib.Tactic.Common
import Typeahead.Text.Lines

namespace Typeahead

open Text

/-- A character that ends no line. -/
def Text.Plain (c : Char) : Prop := c ≠ '\n' ∧ c ≠ '\r'

/-- A line terminator, in front of what follows it: a carriage return takes the line feed behind it
with it. -/
inductive EndsLine : (terminator rest : List Char) → Prop where
  | feed (rest : List Char) : EndsLine ['\n'] rest
  | returnFeed (rest : List Char) : EndsLine ['\r', '\n'] rest
  | return {rest : List Char} : rest.head? ≠ some '\n' → EndsLine ['\r'] rest

/-- The lines of a text that begins at an offset: each starts behind the terminator of the one before,
and has the length of the piece up to its own. -/
inductive LinesOf : (start : Nat) → (text : List Char) → List Line → Prop where
  | last {start content} : (∀ c ∈ content, Plain c) → LinesOf start content [⟨start, unitLength content⟩]
  | next {start content terminator rest lines} : (∀ c ∈ content, Plain c) → EndsLine terminator rest →
      LinesOf (start + unitLength content + terminator.length) rest lines →
      LinesOf start (content ++ (terminator ++ rest)) (⟨start, unitLength content⟩ :: lines)

/-- An offset lies between the carriage return and the line feed of one terminator, in a text that
begins at `start`. -/
def SplitsTerminator (start : Nat) (text : List Char) (offset : Nat) : Prop :=
  ∃ before after, text = before ++ '\r' :: '\n' :: after ∧ offset = start + unitLength before + 1

/-- A place comes no later than another. -/
def Position.NoLater (p q : Position) : Prop := p.line < q.line ∨ p.line = q.line ∧ p.column ≤ q.column

theorem EndsLine.unitLength {terminator rest : List Char} (h : EndsLine terminator rest) :
    unitLength terminator = terminator.length := by
  cases h <;> rfl

theorem EndsLine.length_pos {terminator rest : List Char} (h : EndsLine terminator rest) : 0 < terminator.length := by
  cases h <;> simp

/-! ### The lines of a text -/

/-- **The lines that are counted are those of the text.** -/
theorem linesOf_linesFrom (start length : Nat) (content text : List Char) (hc : ∀ c ∈ content, Plain c)
    (hlength : unitLength content = length) : LinesOf start (content ++ text) (linesFrom start length text) := by
  fun_induction linesFrom start length text generalizing content with
  | case1 start length =>
    rw [List.append_nil, ← hlength]
    exact .last hc
  | case2 start length text ih =>
    have hrest := ih [] (by simp) rfl
    rw [← hlength] at hrest ⊢
    exact .next hc (.returnFeed text) hrest
  | case3 start length c text hc' h ih =>
    have hrest := ih [] (by simp) rfl
    rw [← hlength] at hrest ⊢
    rcases h with rfl | rfl
    · exact .next hc (.feed text) hrest
    · -- no line feed follows, as the case before shows
      refine .next hc (.return fun h => ?_) hrest
      cases text with
      | nil => cases h
      | cons d text =>
        cases h
        exact hc' text rfl rfl
  | case4 start length c text hc' h ih =>
    have hplain : ∀ d ∈ content ++ [c], Plain d := by
      intro d hd
      rcases List.mem_append.1 hd with hd | hd
      · exact hc d hd
      · rw [List.mem_singleton.1 hd]
        exact not_or.1 h
    have hsum : unitLength (content ++ [c]) = length + unitWidth c := by
      rw [unitLength_append, hlength]
      rfl
    simpa using ih (content ++ [c]) hplain hsum

namespace LinesOf

variable {start : Nat} {text : List Char} {lines : List Line}

theorem start_le (h : LinesOf start text lines) : ∀ line ∈ lines, start ≤ line.start := by
  induction h with
  | last => simp
  | next _ _ _ ih =>
    simp only [List.mem_cons, forall_eq_or_imp]
    exact ⟨Nat.le_refl _, fun line hline => by have := ih line hline; omega⟩

theorem stop_le (h : LinesOf start text lines) :
    ∀ line ∈ lines, line.start + line.length ≤ start + unitLength text := by
  induction h with
  | last => simp
  | next _ hends _ ih =>
    simp only [List.mem_cons, forall_eq_or_imp, unitLength_append, hends.unitLength]
    exact ⟨by omega, fun line hline => by have := ih line hline; omega⟩

/-- The search goes no further than the line that it has found if the text starts behind the offset. -/
theorem lastStarting_of_lt (h : LinesOf start text lines) {offset : Nat} (ho : offset < start)
    (current : Nat × Line) (index : Nat) : LineMap.lastStarting offset current lines index = current := by
  cases h <;> rw [LineMap.lastStarting, if_neg (Nat.not_le.2 ho)]

/-- **The line of an offset** in a line or at its end is found. -/
theorem lastStarting_eq (h : LinesOf start text lines) {k : Nat} {line : Line} (hk : lines[k]? = some line)
    {offset : Nat} (hstart : line.start ≤ offset) (hstop : offset ≤ line.start + line.length)
    (current : Nat × Line) (index : Nat) :
    LineMap.lastStarting offset current lines index = (index + k, line) := by
  induction h generalizing k current index with
  | last =>
    cases k with
    | zero =>
      cases hk
      rw [LineMap.lastStarting, if_pos hstart]
      rfl
    | succ k => cases hk
  | next _ hends hrest ih =>
    cases k with
    | zero =>
      cases hk
      have hpos := hends.length_pos
      rw [LineMap.lastStarting, if_pos hstart, hrest.lastStarting_of_lt (by simp only at hstop; omega)]
      rfl
    | succ k =>
      have hle := hrest.start_le line (List.mem_of_getElem? hk)
      rw [LineMap.lastStarting, if_pos (by simp only; omega), ih hk, Nat.add_right_comm, Nat.add_assoc]

end LinesOf

/-! ### Where a terminator is split -/

/-- A carriage return and a line feed that stand where a line ends are its terminator, or stand behind it. -/
theorem EndsLine.splits {terminator rest more after : List Char} (hends : EndsLine terminator rest)
    (h : terminator ++ rest = more ++ '\r' :: '\n' :: after) :
    (terminator = ['\r', '\n'] ∧ more = []) ∨
      ∃ before, more = terminator ++ before ∧ rest = before ++ '\r' :: '\n' :: after := by
  cases hends with
  | feed =>
    cases more with
    | nil => cases h
    | cons d more =>
      obtain ⟨rfl, rfl⟩ := List.cons.inj h
      exact .inr ⟨more, rfl, rfl⟩
  | returnFeed =>
    rcases more with _ | ⟨d, _ | ⟨e, more⟩⟩
    · exact .inl ⟨rfl, rfl⟩
    · cases h
    · cases h
      exact .inr ⟨more, rfl, rfl⟩
  | «return» hfeed =>
    cases more with
    | nil =>
      cases h
      exact absurd rfl hfeed
    | cons d more =>
      obtain ⟨rfl, rfl⟩ := List.cons.inj h
      exact .inr ⟨more, rfl, rfl⟩

/-- An offset that splits a terminator splits that of the first line or one behind it. -/
theorem splitsTerminator_iff {content terminator rest : List Char} (hc : ∀ c ∈ content, Plain c)
    (hends : EndsLine terminator rest) (start offset : Nat) :
    SplitsTerminator start (content ++ (terminator ++ rest)) offset ↔
      (terminator = ['\r', '\n'] ∧ offset = start + unitLength content + 1) ∨
        SplitsTerminator (start + unitLength content + terminator.length) rest offset := by
  constructor
  · rintro ⟨before, after, htext, rfl⟩
    obtain ⟨more, rfl, hmore⟩ : ∃ more, before = content ++ more ∧
        terminator ++ rest = more ++ '\r' :: '\n' :: after := by
      rcases List.append_eq_append_iff.1 htext with h | ⟨more, rfl, hrest⟩
      · exact h
      · -- there is no carriage return in the content
        cases more with
        | nil => exact ⟨[], by simp, hrest.symm⟩
        | cons d more =>
          obtain ⟨rfl, -⟩ := List.cons.inj hrest
          exact absurd rfl (hc '\r' (by simp)).2
    rcases hends.splits hmore with ⟨rfl, rfl⟩ | ⟨inner, rfl, rfl⟩
    · exact .inl ⟨rfl, by rw [List.append_nil]⟩
    · refine .inr ⟨inner, after, rfl, ?_⟩
      rw [unitLength_append, unitLength_append, hends.unitLength]
      omega
  · rintro (⟨rfl, rfl⟩ | ⟨before, after, rfl, rfl⟩)
    · exact ⟨content, rest, by simp, rfl⟩
    · refine ⟨content ++ (terminator ++ before), after, by simp, ?_⟩
      rw [unitLength_append, unitLength_append, hends.unitLength]
      omega

theorem SplitsTerminator.lt {start offset : Nat} {text : List Char} (h : SplitsTerminator start text offset) :
    start < offset := by
  obtain ⟨before, after, -, rfl⟩ := h
  omega

/-- **The offset of the place of an offset** is that offset again; where it splits a terminator, it is the end of
the line. -/
theorem LinesOf.offset_lastStarting {start : Nat} {text : List Char} {lines : List Line} (h : LinesOf start text lines)
    {offset : Nat} (hstart : start ≤ offset) (hstop : offset ≤ start + unitLength text) (current : Nat × Line)
    (index : Nat) :
    ∃ k line, lines[k]? = some line ∧ LineMap.lastStarting offset current lines index = (index + k, line) ∧
      (SplitsTerminator start text offset → line.start + min (offset - line.start) line.length + 1 = offset) ∧
      (¬ SplitsTerminator start text offset → line.start + min (offset - line.start) line.length = offset) := by
  induction h generalizing current index with
  | @last start content hc =>
    refine ⟨0, _, rfl, by rw [LineMap.lastStarting, if_pos hstart]; rfl, ?_, fun _ => by simp only; omega⟩
    rintro ⟨before, after, rfl, -⟩
    exact absurd rfl (hc '\r' (by simp)).2
  | @next start content terminator rest lines hc hends hrest ih =>
    rw [unitLength_append, unitLength_append, hends.unitLength] at hstop
    rw [splitsTerminator_iff hc hends]
    rcases Nat.lt_or_ge offset (start + unitLength content + terminator.length) with hlt | hge
    · -- in the first line or its terminator
      refine ⟨0, _, rfl, by rw [LineMap.lastStarting, if_pos hstart, hrest.lastStarting_of_lt hlt]; rfl, ?_, ?_⟩
      · rintro (⟨-, rfl⟩ | hsplits)
        · simp only
          omega
        · exact absurd hsplits.lt (by omega)
      · intro hnot
        have hle : offset ≤ start + unitLength content := by
          cases hends with
          | returnFeed =>
            have hne : offset ≠ start + unitLength content + 1 := fun h => hnot (.inl ⟨rfl, h⟩)
            simp only [List.length_cons, List.length_nil] at hlt
            omega
          | _ =>
            simp only [List.length_cons, List.length_nil] at hlt
            omega
        simp only
        omega
    · obtain ⟨k, line, hk, hfound, hsplit, hnot⟩ := ih hge (by omega) (index, ⟨start, unitLength content⟩) (index + 1)
      refine ⟨k + 1, line, hk, ?_, ?_, fun h => hnot fun hrest => h (.inr hrest)⟩
      · rw [LineMap.lastStarting, if_pos hstart, hfound, Nat.add_right_comm, Nat.add_assoc]
      · rintro (⟨rfl, rfl⟩ | h)
        · exact absurd hge (by simp)
        · exact hsplit h

namespace LineMap

/-- The search finds a line among those it is given, or stays with the current one. -/
theorem lastStarting_cases (offset : Nat) : ∀ (lines : List Line) (current : Nat × Line) (index : Nat),
    lastStarting offset current lines index = current ∨ index ≤ (lastStarting offset current lines index).1
  | [], _, _ => .inl rfl
  | line :: lines, current, index => by
    rw [lastStarting]
    split
    · rcases lastStarting_cases offset lines (index, line) (index + 1) with h | h
      · exact .inr (Nat.le_of_eq (congrArg (·.1) h).symm)
      · exact .inr (Nat.le_of_succ_le h)
    · exact .inl rfl

/-- A later offset is found in the same line or in a later one. -/
theorem lastStarting_mono {a b : Nat} (hab : a ≤ b) : ∀ (lines : List Line) (current : Nat × Line) (index : Nat),
    current.1 < index →
    lastStarting a current lines index = lastStarting b current lines index ∨
      (lastStarting a current lines index).1 < (lastStarting b current lines index).1
  | [], _, _, _ => .inl rfl
  | line :: lines, current, index, h => by
    by_cases ha : line.start ≤ a
    · rw [lastStarting, lastStarting, if_pos ha, if_pos (Nat.le_trans ha hab)]
      exact lastStarting_mono hab lines (index, line) (index + 1) (Nat.lt_succ_self index)
    · have hstays : lastStarting a current (line :: lines) index = current := by rw [lastStarting, if_neg ha]
      rw [hstays]
      rcases lastStarting_cases b (line :: lines) current index with hb | hb
      · exact .inl hb.symm
      · exact .inr (Nat.lt_of_lt_of_le h hb)

theorem position_eq (m : LineMap) (offset : Nat) {k : Nat} {line : Line}
    (h : lastStarting (min offset m.length) (0, ⟨0, 0⟩) m.lines.toList 0 = (k, line)) :
    m.position offset = ⟨k, min (min offset m.length - line.start) line.length⟩ := by
  simp only [position, h]

theorem offset?_eq (m : LineMap) {k : Nat} {line : Line} (h : m.lines.toList[k]? = some line) (column : Nat) :
    m.offset? ⟨k, column⟩ = some (line.start + min column line.length) := by
  rw [Array.getElem?_toList] at h
  simp only [offset?, h, Option.map_some]

/-- A later offset has no earlier place. -/
theorem position_mono (text : List Char) {a b : Nat} (hab : a ≤ b) :
    ((ofText text).position a).NoLater ((ofText text).position b) := by
  have hlines : LinesOf 0 text (ofText text).lines.toList := linesOf_linesFrom 0 0 [] text (by simp) rfl
  have hmin : min a (ofText text).length ≤ min b (ofText text).length := by omega
  -- the first line starts at the first offset, so both searches pass it
  obtain ⟨first, lines, hfirst, hzero⟩ : ∃ first lines,
      (ofText text).lines.toList = first :: lines ∧ first.start = 0 := by
    generalize (ofText text).lines.toList = l at hlines
    cases hlines <;> exact ⟨_, _, rfl, rfl⟩
  have hstep : ∀ offset,
      lastStarting offset (0, ⟨0, 0⟩) (first :: lines) 0 = lastStarting offset (0, first) lines 1 :=
    fun offset => by rw [lastStarting, if_pos (hzero ▸ Nat.zero_le _)]
  simp only [position, hfirst, hstep]
  rcases lastStarting_mono hmin lines (0, first) 1 Nat.zero_lt_one with h | h
  · refine .inr ⟨congrArg (·.1) h, ?_⟩
    simp only [h]
    omega
  · exact .inl h

/-- **Offsets and places name the same points of a text.** An offset has a place that has the offset again, but for one
between the carriage return and the line feed of one terminator, whose place has the offset before it; a place in a line
of the text has an offset whose place it is, with its column cut to the length of the line; and a later offset has no
earlier place. The lines are those of the text. -/
theorem position_offset_inverse (text : List Char) :
    LinesOf 0 text (ofText text).lines.toList ∧
      (∀ offset ≤ unitLength text,
        (SplitsTerminator 0 text offset →
          (ofText text).offset? ((ofText text).position offset) = some (offset - 1)) ∧
        (¬ SplitsTerminator 0 text offset →
          (ofText text).offset? ((ofText text).position offset) = some offset)) ∧
      (∀ index < (ofText text).count, ∀ column, ∃ line, (ofText text).lines[index]? = some line ∧
        ((ofText text).offset? ⟨index, column⟩).map (ofText text).position = some ⟨index, min column line.length⟩) ∧
      ∀ a b, a ≤ b → ((ofText text).position a).NoLater ((ofText text).position b) := by
  have hlines : LinesOf 0 text (ofText text).lines.toList := linesOf_linesFrom 0 0 [] text (by simp) rfl
  refine ⟨hlines, fun offset hle => ?_, fun index hindex column => ?_, fun a b => position_mono text⟩
  · have hmin : min offset (ofText text).length = offset := Nat.min_eq_left hle
    obtain ⟨k, line, hk, hfound, hsplit, hnot⟩ := hlines.offset_lastStarting (Nat.zero_le offset)
      (by rwa [Nat.zero_add]) (0, ⟨0, 0⟩) 0
    rw [Nat.zero_add] at hfound
    have hback : (ofText text).offset? ((ofText text).position offset) =
        some (line.start + min (offset - line.start) line.length) := by
      rw [position_eq _ offset (hmin.symm ▸ hfound), hmin, offset?_eq _ hk, Nat.min_assoc, Nat.min_self]
    rw [hback]
    exact ⟨fun h => congrArg some (Nat.eq_sub_of_add_eq (hsplit h)), fun h => congrArg some (hnot h)⟩
  · have hk : (ofText text).lines.toList[index]? = some (ofText text).lines[index] := by
      rw [Array.getElem?_toList]
      exact Array.getElem?_eq_getElem hindex
    generalize (ofText text).lines[index] = line at hk
    refine ⟨line, by rwa [← Array.getElem?_toList], ?_⟩
    have hstop := hlines.stop_le line (List.mem_of_getElem? hk)
    have hmin : min (line.start + min column line.length) (ofText text).length =
        line.start + min column line.length := by
      change min _ (unitLength text) = _
      omega
    have hfound : lastStarting (line.start + min column line.length) (0, ⟨0, 0⟩) (ofText text).lines.toList 0 =
        (0 + index, line) := hlines.lastStarting_eq hk (by omega) (by omega) _ _
    rw [Nat.zero_add] at hfound
    rw [offset?_eq _ hk, Option.map_some, position_eq _ _ (hmin.symm ▸ hfound), hmin, Nat.add_sub_cancel_left,
      Nat.min_assoc, Nat.min_self]

/-- A text with a terminator of two characters and a character of two units: the offset in the terminator is moved to
its start, and the one in the character stays. -/
theorem position_offset_inverse_pairs :
    let text := ['a', '\r', '\n', '😀']
    let m := ofText text
    (2 ≤ unitLength text ∧ SplitsTerminator 0 text 2 ∧ m.offset? (m.position 2) = some 1) ∧
      (4 ≤ unitLength text ∧ ¬ SplitsTerminator 0 text 4 ∧ m.offset? (m.position 4) = some 4) ∧
      (1 < m.count ∧ (m.offset? ⟨1, 7⟩).map m.position = some ⟨1, 2⟩) ∧
      (m.position 2).NoLater (m.position 4) := by
  intro text m
  obtain ⟨-, hoffset, hplace, hmono⟩ := position_offset_inverse text
  have hsplits : SplitsTerminator 0 text 2 := ⟨['a'], ['😀'], rfl, rfl⟩
  have hwhole : ¬ SplitsTerminator 0 text 4 := by
    rintro ⟨before, after, htext, hoffset⟩
    rcases before with _ | ⟨a, _ | ⟨b, _ | ⟨c, before⟩⟩⟩
    · simp [text] at htext
    · obtain ⟨rfl, -⟩ := List.cons.inj htext
      exact absurd hoffset (by decide)
    · simp [text] at htext
    · have hlength := congrArg List.length htext
      simp [text] at hlength
      omega
  obtain ⟨line, hline, hback⟩ := hplace 1 (by decide) 7
  have hlength : line.length = 2 := by
    have hsecond : m.lines[1]? = some ⟨3, 2⟩ := by decide
    rw [Option.some.inj (hline.symm.trans hsecond)]
  exact ⟨⟨by decide, hsplits, (hoffset 2 (by decide)).1 hsplits⟩,
    ⟨by decide, hwhole, (hoffset 4 (by decide)).2 hwhole⟩,
    ⟨by decide, by rw [hback, hlength]; rfl⟩, hmono 2 4 (by decide)⟩

end LineMap
end Typeahead
