/-
# Lines are coloured as the whole text is

Colouring a text line by line gives what one scan of the whole text gives, cut at the ends
of the lines. The invariant that carries a fold over the lines is `scanIn`: what a line leaves
open is the first lexeme of the text after it, and behind that lexeme the scan goes on as
ever. A string is the only token that the fold does not carry, so no string may hold a line
feed.

Key definitions: `Token.clip`, `lineRanges`, `scanIn`, `SameFrom`.
Key theorems: `scanFrom_line`, `highlightLine_clips`, `highlightLines_eq_clips`.
-/
import Typeahead.Proofs.LineEnd
import Typeahead.Proofs.Scan

namespace Typeahead

open Text

/-- The part of a token in a range, measured from the start of the range. -/
def Token.clip (range : TextRange) (t : Token) : Option HighlightSpan :=
  let start := max t.start range.start
  let stop := min t.stop range.stop
  if start < stop then some (.ofKind t.kind (start - range.start) (stop - range.start)) else none

/-- The parts of some tokens in a range. -/
def clips (range : TextRange) (tokens : List Token) : List HighlightSpan :=
  tokens.filterMap (·.clip range)

/-- The ranges of lines that a line feed parts, without their carriage returns, the first of
which starts at an offset. -/
def lineRanges (start : Nat) : List (List Char) → List TextRange
  | [] => []
  | line :: lines =>
    ⟨start, start + unitLength (dropCarriageReturn line)⟩ ::
      lineRanges (start + unitLength line + 1) lines

/-- The tokens of a text that begins at an offset and in a state. -/
def scanIn (state : LineState) (offset : Nat) (text : List Char) : List Token :=
  match state.open? text with
  | none => scanFrom true offset text
  | some lexeme =>
    let token := lexeme.toToken offset (text.take lexeme.extra) false
    token :: scanFrom true token.stop (text.drop lexeme.extra)

/-- From an offset on, two lists of tokens have the same parts. -/
def SameFrom (offset : Nat) (tokens others : List Token) : Prop :=
  ∀ range : TextRange, offset ≤ range.start → clips range tokens = clips range others

/-- The strings among the tokens, each on one line. -/
def OneLineStrings (tokens : List Token) : Prop :=
  ∀ t ∈ tokens, t.kind = .string → '\n' ∉ t.text.toList

instance : DecidablePred OneLineStrings := fun tokens =>
  inferInstanceAs (Decidable (∀ t ∈ tokens, t.kind = .string → '\n' ∉ t.text.toList))

/-! ### Parts of tokens -/

theorem clips_of_placed {tokens others : List Token} (h : tokens.map Token.placed = others.map Token.placed)
    (range : TextRange) : clips range tokens = clips range others := by
  have hparts : ∀ l : List Token, clips range l = (l.map Token.placed).filterMap fun p =>
      Token.clip range ⟨p.1, p.2.1, p.2.2.1, p.2.2.2, false, false⟩ := fun l => by
    rw [List.filterMap_map]
    rfl
  rw [hparts, hparts, h]

/-- A token that stops before a range has no part in it. -/
theorem Token.clip_of_stop_le {t : Token} {range : TextRange} (h : t.stop ≤ range.start) :
    t.clip range = none := by
  rw [clip, if_neg (by omega)]

/-- A token that starts behind a range has no part in it. -/
theorem Token.clip_of_le_start {t : Token} {range : TextRange} (h : range.stop ≤ t.start) :
    t.clip range = none := by
  rw [clip, if_neg (by omega)]

/-- Tokens that start behind a range have no part in it. -/
theorem clips_eq_nil {tokens : List Token} {range : TextRange} (h : ∀ t ∈ tokens, range.stop ≤ t.start) :
    clips range tokens = [] :=
  List.filterMap_eq_nil_iff.2 fun t ht => Token.clip_of_le_start (h t ht)

theorem getLast?_of_drop {x : List Char} {taken : Nat} {c : Char} (h : (x.drop taken).getLast? = some c) :
    x.getLast? = some c := by
  rw [List.getLast?_drop] at h
  split at h
  · cases h
  · exact h

/-! ### The scan of a line -/

/-- A token but for the line break before it. -/
def Token.unflagged (t : Token) : Token := { t with afterLineBreak := false }

theorem placed_of_unflagged {tokens others : List Token}
    (h : tokens.map Token.unflagged = others.map Token.unflagged) :
    tokens.map Token.placed = others.map Token.placed := by
  have hplaced : ∀ l : List Token, l.map Token.placed = (l.map Token.unflagged).map Token.placed :=
    fun l => by
      rw [List.map_map]
      rfl
  rw [hplaced, h, ← hplaced]

/-- A scan but for the line breaks: the token after the gap, and the rest. -/
theorem unflagged_scanFrom (offset : Nat) (text : List Char) :
    (scanFrom true offset text).map Token.unflagged =
      let start := offset + unitLength (text.take (triviaLength true text))
      match text.drop (triviaLength true text) with
      | [] => [Token.endOfInput start]
      | c :: rest =>
        let lexeme := Lexeme.read true c rest
        let token := lexeme.toToken start (c :: rest.take lexeme.extra) false
        token.unflagged :: (scanFrom true token.stop (rest.drop lexeme.extra)).map Token.unflagged := by
  rw [scanFrom]
  split
  · next h => simp only [h]; rfl
  · next h => simp only [h]; rfl

/-- Blanks before a text move it on. -/
theorem scanFrom_blanks {blanks : List Char} (hb : ∀ c ∈ blanks, isBlank c = true) (offset : Nat)
    (text : List Char) :
    (scanFrom true offset (blanks ++ text)).map Token.unflagged =
      (scanFrom true (offset + unitLength blanks) text).map Token.unflagged := by
  have hskip : triviaLength true (blanks ++ text) = blanks.length + triviaLength true text := by
    rw [triviaLength_true, triviaLength_true, List.takeWhile_append_of_pos hb, List.length_append]
  have hdrop : (blanks ++ text).drop (triviaLength true (blanks ++ text)) =
      text.drop (triviaLength true text) := by
    rw [hskip, ← List.drop_drop, List.drop_left]
  have htake : unitLength ((blanks ++ text).take (triviaLength true (blanks ++ text))) =
      unitLength blanks + unitLength (text.take (triviaLength true text)) := by
    rw [hskip, List.take_length_add_append, unitLength_append]
  rw [unflagged_scanFrom, unflagged_scanFrom, hdrop, htake, Nat.add_assoc]

theorem scanFrom_cons (offset : Nat) {c : Char} (hc : isBlank c = false) (rest : List Char) :
    scanFrom true offset (c :: rest) =
      let lexeme := Lexeme.read true c rest
      let token := lexeme.toToken offset (c :: rest.take lexeme.extra) false
      token :: scanFrom true token.stop (rest.drop lexeme.extra) := by
  have hskip : triviaLength true (c :: rest) = 0 := by
    rw [triviaLength_true, List.takeWhile_cons, if_neg (by simp [hc])]
    rfl
  rw [scanFrom]
  split
  · next h => simp [hskip] at h
  · next h =>
    rw [hskip, List.drop_zero] at h
    obtain ⟨rfl, rfl⟩ := List.cons.inj h
    simp only [hskip, List.take_zero, unitLength, List.any_nil, Nat.add_zero]

/-- A text is blanks, or a character that is none behind blanks. -/
theorem blanks_or (text : List Char) : ∃ blanks rest, text = blanks ++ rest ∧
    (∀ c ∈ blanks, isBlank c = true) ∧ ∀ c ∈ rest.head?, isBlank c = false := by
  refine ⟨text.takeWhile isBlank, text.dropWhile isBlank, (List.takeWhile_append_dropWhile ..).symm,
    fun c => isBlank_of_mem_takeWhile, fun c hc => ?_⟩
  have := List.head?_dropWhile_not isBlank text
  rw [Option.mem_def.1 hc] at this
  simpa using this

/-! ### Colouring a line -/

/-- A list of tokens is coloured the same whatever line breaks are before them. -/
theorem highlightFrom_blanks {blanks : List Char} (hb : ∀ c ∈ blanks, isBlank c = true) (offset : Nat)
    (text : List Char) :
    highlightFrom offset (blanks ++ text) = highlightFrom (offset + unitLength blanks) text := by
  have hcolour : ∀ (offset : Nat) (text : List Char), highlightFrom offset text =
      let tokens := ((scanFrom true offset text).map Token.unflagged).filter (·.kind != .endOfInput)
      (tokens.map fun t => .ofKind t.kind t.start t.stop,
        (tokens.getLast?.map LineState.after).getD .normal) := by
    intro offset text
    simp only [highlightFrom, List.filter_map, List.map_map, List.getLast?_map, Option.map_map]
    rfl
  rw [hcolour, hcolour, scanFrom_blanks hb]

theorem scanFrom_nil (offset : Nat) :
    (scanFrom true offset []).map Token.unflagged = [Token.endOfInput offset] := by
  simp [unflagged_scanFrom, triviaLength_true, unitLength]

theorem highlightFrom_nil (offset : Nat) : highlightFrom offset [] = ([], .normal) := by
  have h : ∀ t ∈ scanFrom true offset [], (t.kind != .endOfInput) = false := by
    intro t ht
    have := List.mem_map_of_mem (f := Token.unflagged) ht
    rw [scanFrom_nil, List.mem_singleton] at this
    simpa [Token.unflagged, Token.endOfInput] using congrArg Token.kind this
  rw [highlightFrom, List.filter_eq_nil_iff.2 fun t ht => by simp [h t ht]]
  rfl

theorem highlightFrom_cons (offset : Nat) {c : Char} (hc : isBlank c = false) (rest : List Char) :
    let lexeme := Lexeme.read true c rest
    let stop := offset + unitLength (c :: rest.take lexeme.extra)
    let further := highlightFrom stop (rest.drop lexeme.extra)
    (highlightFrom offset (c :: rest)).1 = .ofKind lexeme.kind offset stop :: further.1 ∧
      (lexeme.leaves (rest.take lexeme.extra) = .normal → (highlightFrom offset (c :: rest)).2 = further.2) ∧
      (rest.drop lexeme.extra = [] →
        (highlightFrom offset (c :: rest)).2 = lexeme.leaves (rest.take lexeme.extra)) := by
  intro lexeme stop further
  let token := lexeme.toToken offset (c :: rest.take lexeme.extra) false
  let tokens := (scanFrom true stop (rest.drop lexeme.extra)).filter (·.kind != .endOfInput)
  have hkind : (token.kind != .endOfInput) = true := by
    simpa [token, Lexeme.toToken] using (read_kind true c rest).1
  have hscan : (scanFrom true offset (c :: rest)).filter (·.kind != .endOfInput) = token :: tokens := by
    rw [scanFrom_cons offset hc]
    exact List.filter_cons_of_pos hkind
  have hafter : LineState.after token = lexeme.leaves (rest.take lexeme.extra) :=
    LineState.after_toToken ..
  have hstate : (highlightFrom offset (c :: rest)).2 =
      (tokens.getLast?.map LineState.after).getD (lexeme.leaves (rest.take lexeme.extra)) := by
    simp only [highlightFrom, hscan, List.getLast?_cons, Option.map_some, Option.getD_some, ← hafter]
    cases tokens.getLast? <;> rfl
  refine ⟨by simp only [highlightFrom, hscan]; rfl, fun h => by rw [hstate, h]; rfl, fun h => ?_⟩
  have hnone : tokens = [] := by
    have := congrArg Prod.fst (highlightFrom_nil stop)
    simpa [highlightFrom, tokens, h] using this
  rw [hstate, hnone]
  rfl

/-! ### A line and the scan of the text that it begins -/

/-- The colours of a line are the parts of the tokens in its range, and the tokens go on behind
the line end as a scan from what the line leaves open does. -/
structure LineAgrees (range : TextRange) (after : Nat) (next : Option (List Char)) (tokens : List Token)
    (found : List HighlightSpan × LineState) : Prop where
  spans : clips range tokens = found.1
  goesOn : ∀ more, next = some more →
    SameFrom after tokens (scanIn found.2 after more) ∧ OneLineStrings (scanIn found.2 after more)

theorem clips_cons (range : TextRange) (t : Token) (tokens : List Token) :
    clips range (t :: tokens) = (t.clip range).toList ++ clips range tokens := by
  rw [clips, List.filterMap_cons]
  cases t.clip range <;> rfl

theorem oneLineStrings_of_placed {tokens others : List Token}
    (h : tokens.map Token.placed = others.map Token.placed) (hs : OneLineStrings tokens) :
    OneLineStrings others := by
  intro t ht
  have hmem : t.placed ∈ tokens.map Token.placed := h ▸ List.mem_map_of_mem ht
  obtain ⟨u, hu, heq⟩ := List.mem_map.1 hmem
  simp only [Token.placed, Prod.mk.injEq] at heq
  rw [← heq.1, ← heq.2.1]
  exact hs u hu

namespace LineAgrees

variable {range : TextRange} {after : Nat} {next : Option (List Char)} {token : Token} {tokens : List Token}

/-- Where the line breaks of the tokens are makes no difference. -/
theorem of_placed {others : List Token} {found : List HighlightSpan × LineState}
    (h : LineAgrees range after next others found)
    (hplaced : tokens.map Token.placed = others.map Token.placed) :
    LineAgrees range after next tokens found where
  spans := (clips_of_placed hplaced range).trans h.spans
  goesOn more hn := ⟨fun r hr => (clips_of_placed hplaced r).trans ((h.goesOn more hn).1 r hr),
    (h.goesOn more hn).2⟩

/-- A token that ends in the line. -/
theorem ends {found : List HighlightSpan × LineState} {state : LineState}
    (h : LineAgrees range after next tokens found) (hstart : range.start ≤ token.start)
    (hlt : token.start < token.stop) (hstop : token.stop ≤ range.stop) (hafter : range.stop ≤ after)
    (hstate : next.isSome → state = found.2) :
    LineAgrees range after next (token :: tokens)
      (.ofKind token.kind (token.start - range.start) (token.stop - range.start) :: found.1, state) := by
  refine ⟨?_, fun more hn => ?_⟩
  · have hclip : token.clip range =
        some (.ofKind token.kind (token.start - range.start) (token.stop - range.start)) := by
      rw [Token.clip, Nat.max_eq_left hstart, Nat.min_eq_left hstop, if_pos hlt]
    rw [clips_cons, hclip, h.spans]
    rfl
  · rw [hstate (by rw [hn]; rfl)]
    refine ⟨fun r hr => ?_, (h.goesOn more hn).2⟩
    rw [clips_cons, Token.clip_of_stop_le (by omega), ← (h.goesOn more hn).1 r hr]
    rfl

/-- A token that reaches the end of the line. -/
theorem crosses {spans : List HighlightSpan} {state : LineState} (hstart : range.start ≤ token.start)
    (hstop : range.stop ≤ token.stop) (hbehind : ∀ t ∈ tokens, token.stop ≤ t.start)
    (hspans : spans = if token.start < range.stop then
      [.ofKind token.kind (token.start - range.start) (range.stop - range.start)] else [])
    (hgoes : ∀ more, next = some more →
      SameFrom after (token :: tokens) (scanIn state after more) ∧ OneLineStrings (scanIn state after more)) :
    LineAgrees range after next (token :: tokens) (spans, state) := by
  refine ⟨?_, hgoes⟩
  have hrest : clips range tokens = [] := clips_eq_nil fun t ht => by
    have := hbehind t ht
    omega
  rw [clips_cons, hrest, Token.clip, Nat.max_eq_left hstart, Nat.min_eq_right hstop, hspans]
  split <;> rfl

end LineAgrees

theorem LineEnd.isBlank {gap : List Char} {next : Option (List Char)} (ht : LineEnd gap next) :
    ∀ c ∈ gap, Text.isBlank c = true := by
  cases ht <;> decide

theorem LineEnd.unitLength {gap : List Char} {next : Option (List Char)} (ht : LineEnd gap next) :
    Text.unitLength gap = gap.length := by
  cases ht <;> rfl

theorem LineState.open?_ne_string {state : LineState} {text : List Char} {lexeme : Lexeme}
    (h : state.open? text = some lexeme) : lexeme.kind ≠ .string := by
  cases state <;> cases h <;> simp

theorem LineEnd.unitLength_drop {gap : List Char} {next : Option (List Char)} (ht : LineEnd gap next)
    (taken : Nat) : Text.unitLength (gap.take taken) + Text.unitLength (gap.drop taken) = gap.length := by
  rw [← unitLength_append, List.take_append_drop, ht.unitLength]

/-- The scan in which a token crosses the end of a line goes on behind it from what the line
leaves open. -/
theorem sameFrom_crossing {gap : List Char} {next : Option (List Char)} (ht : LineEnd gap next)
    (front : List Char) (taken : Nat) {after : Nat} {state : LineState} {token : Token}
    (hstop : token.stop = token.start + unitLength ((front ++ (gap ++ next.getD [])).take taken))
    (hafter : after = token.start + unitLength front + gap.length) (hle : front.length ≤ taken)
    (hnone : ∀ more, next = some more → state.open? more = none → taken ≤ front.length + gap.length)
    (hsome : ∀ more lexeme, next = some more → state.open? more = some lexeme →
      lexeme.kind = token.kind ∧ taken = front.length + gap.length + lexeme.extra)
    (hs : OneLineStrings (scanFrom true token.stop ((front ++ (gap ++ next.getD [])).drop taken))) :
    ∀ more, next = some more →
      SameFrom after (token :: scanFrom true token.stop ((front ++ (gap ++ next.getD [])).drop taken))
          (scanIn state after more) ∧
        OneLineStrings (scanIn state after more) := by
  rintro more hn
  rw [hn, Option.getD_some] at hstop hs ⊢
  rw [scanIn]
  cases hopen : state.open? more with
  | none =>
    -- the token takes at most the line end, and blanks are left of it
    obtain ⟨k, rfl⟩ := Nat.exists_eq_add_of_le hle
    have hk : k ≤ gap.length := by
      have := hnone more hn hopen
      omega
    have htake : (front ++ (gap ++ more)).take (front.length + k) = front ++ gap.take k := by
      rw [List.take_length_add_append, List.take_append_of_le_length hk]
    have hdrop : (front ++ (gap ++ more)).drop (front.length + k) = gap.drop k ++ more := by
      rw [List.drop_length_add_append, List.drop_append_of_le_length hk]
    rw [htake, unitLength_append] at hstop
    have hlen := ht.unitLength_drop k
    have hblank : ∀ c ∈ gap.drop k, isBlank c = true := fun c hc => ht.isBlank c (List.mem_of_mem_drop hc)
    have hblanks := scanFrom_blanks hblank token.stop more
    rw [show token.stop + unitLength (gap.drop k) = after by omega] at hblanks
    rw [hdrop] at hs ⊢
    have hplaced := placed_of_unflagged hblanks
    refine ⟨fun r hr => ?_, oneLineStrings_of_placed hplaced hs⟩
    rw [clips_cons, Token.clip_of_stop_le (by omega), clips_of_placed hplaced]
    rfl
  | some lexeme =>
    obtain ⟨hkind, rfl⟩ := hsome more lexeme hn hopen
    rw [Nat.add_assoc, List.take_length_add_append, List.take_length_add_append, unitLength_append,
      unitLength_append, ht.unitLength] at hstop
    rw [Nat.add_assoc, List.drop_length_add_append, List.drop_length_add_append] at hs ⊢
    have hsame : token.stop = after + unitLength (more.take lexeme.extra) := by omega
    refine ⟨fun r hr => ?_, ?_⟩
    · have hclip : token.clip r = (lexeme.toToken after (more.take lexeme.extra) false).clip r := by
        have hleft : max token.start r.start = max after r.start := by omega
        simp only [Token.clip, Lexeme.toToken, hleft, hsame, hkind]
      simp only [clips_cons, hclip, hsame, Lexeme.toToken]
    · rintro t ht hstring
      rcases List.mem_cons.1 ht with rfl | ht
      · exact absurd hstring (LineState.open?_ne_string hopen)
      · exact hs t (hsame ▸ ht) hstring

/-- A line whose rest is blank is left with nothing open. -/
theorem lineAgrees_blanks {gap blanks : List Char} {next : Option (List Char)} (ht : LineEnd gap next)
    (hb : ∀ c ∈ blanks, isBlank c = true) {base offset stop : Nat} (hstop : stop = offset + unitLength blanks)
    (hs : OneLineStrings (scanFrom true offset (blanks ++ (gap ++ next.getD [])))) :
    LineAgrees ⟨base, stop⟩ (stop + gap.length) next
      (scanFrom true offset (blanks ++ (gap ++ next.getD []))) ([], .normal) := by
  subst hstop
  have hskip := placed_of_unflagged (scanFrom_blanks hb offset (gap ++ next.getD []))
  refine ⟨?_, fun more hn => ?_⟩
  · rw [clips_of_placed hskip]
    exact clips_eq_nil (layout_scanFrom ..).le_start
  · have hend := placed_of_unflagged (scanFrom_blanks ht.isBlank (offset + unitLength blanks) more)
    rw [ht.unitLength] at hend
    rw [hn, Option.getD_some] at hs hskip ⊢
    exact ⟨fun r _ => clips_of_placed (hskip.trans hend) r, oneLineStrings_of_placed (hskip.trans hend) hs⟩

/-- A lexeme and the rest of its line are coloured as in the scan of the text that they begin, if
the rest is. -/
theorem lineAgrees_cons {gap : List Char} {next : Option (List Char)} (ht : LineEnd gap next)
    {c : Char} (hc : isBlank c = false) {x : List Char} (hx : '\n' ∉ x)
    (hr : gap = ['\n'] → x.getLast? ≠ some '\r') {base offset : Nat}
    (hs : OneLineStrings (scanFrom true (base + offset) (c :: (x ++ (gap ++ next.getD [])))))
    (ih : ∀ taken start, OneLineStrings (scanFrom true (base + start) (x.drop taken ++ (gap ++ next.getD []))) →
      LineAgrees ⟨base, base + start + unitLength (x.drop taken)⟩
        (base + start + unitLength (x.drop taken) + gap.length) next
        (scanFrom true (base + start) (x.drop taken ++ (gap ++ next.getD []))) (highlightFrom start (x.drop taken))) :
    LineAgrees ⟨base, base + offset + unitLength (c :: x)⟩
      (base + offset + unitLength (c :: x) + gap.length) next
      (scanFrom true (base + offset) (c :: (x ++ (gap ++ next.getD [])))) (highlightFrom offset (c :: x)) := by
  obtain ⟨hspans, hnormal, hlast⟩ := highlightFrom_cons offset hc x
  have hscan := scanFrom_cons (base + offset) hc (x ++ (gap ++ next.getD []))
  have hgoes := Lexeme.read_append (c := c) ht hx hr fun h hmem => by
    rw [hscan] at hs
    exact hs _ List.mem_cons_self h (by simpa [Lexeme.toToken] using Or.inr hmem)
  generalize Lexeme.read true c (x ++ (gap ++ next.getD [])) = long at hscan hgoes
  generalize Lexeme.read true c x = short at hspans hnormal hlast hgoes
  dsimp only at hscan
  rw [hscan] at hs ⊢
  have hlater := fun t ht => hs t (List.mem_cons_of_mem _ ht)
  cases hgoes with
  | ends hkind hextra hle hstate =>
    have htake : (x ++ (gap ++ next.getD [])).take long.extra = x.take short.extra := by
      rw [hextra, List.take_append_of_le_length hle]
    have hdrop : (x ++ (gap ++ next.getD [])).drop long.extra =
        x.drop short.extra ++ (gap ++ next.getD []) := by
      rw [hextra, List.drop_append_of_le_length hle]
    have hlen : unitLength (c :: x) = unitLength (c :: x.take short.extra) + unitLength (x.drop short.extra) := by
      rw [← unitLength_append, List.cons_append, List.take_append_drop]
    have hpos : 0 < unitLength (c :: x.take short.extra) := Nat.add_pos_left (unitWidth_pos c) _
    have hfound : highlightFrom offset (c :: x) =
        (.ofKind long.kind (base + offset - base) (base + (offset + unitLength (c :: x.take short.extra)) - base) ::
          (highlightFrom (offset + unitLength (c :: x.take short.extra)) (x.drop short.extra)).1,
          (highlightFrom offset (c :: x)).2) := by
      rw [Nat.add_sub_cancel_left, Nat.add_sub_cancel_left, hkind, ← hspans]
    rw [htake, hdrop] at hlater ⊢
    simp only [Lexeme.toToken, Nat.add_assoc] at hlater ⊢
    have h := ih short.extra (offset + unitLength (c :: x.take short.extra)) hlater
    rw [hfound, hlen]
    simp only [Nat.add_assoc] at h ⊢
    exact h.ends (Nat.le_add_right _ _) (by simp only; omega) (by simp only; omega) (by simp only; omega)
      fun hn => hnormal (hstate hn)
  | crosses hkind hextra hle hnone hsome =>
    have hfound : highlightFrom offset (c :: x) =
        ([.ofKind long.kind (base + offset - base) (base + offset + unitLength (c :: x) - base)],
          short.leaves (x.take short.extra)) := by
      have hrest : x.drop short.extra = [] := by rw [hextra, List.drop_length]
      refine Prod.ext ?_ (hlast hrest)
      rw [hspans, hrest, highlightFrom_nil, hextra, List.take_length, hkind, Nat.add_assoc base,
        Nat.add_sub_cancel_left, Nat.add_sub_cancel_left]
    have hlen : unitLength (c :: x) ≤ unitLength (c :: (x ++ (gap ++ next.getD [])).take long.extra) := by
      obtain ⟨k, hk⟩ := Nat.exists_eq_add_of_le hle
      rw [hk, List.take_length_add_append, ← List.cons_append, unitLength_append]
      exact Nat.le_add_right _ _
    have hpos : 0 < unitLength (c :: x) := Nat.add_pos_left (unitWidth_pos c) _
    rw [hfound]
    refine .crosses (Nat.le_add_right _ _) (Nat.add_le_add_left hlen _) (layout_scanFrom true _ _).le_start ?_ ?_
    · rw [if_pos (by simp only [Lexeme.toToken]; omega)]
      rfl
    · refine sameFrom_crossing ht (c :: x) (long.extra + 1) rfl rfl (Nat.succ_le_succ hle) ?_ ?_ hlater
      · intro more hn hopen
        have := hnone more hn hopen
        simp only [List.length_cons]
        omega
      · intro more lexeme hn hopen
        obtain ⟨h1, h2⟩ := hsome more lexeme hn hopen
        exact ⟨h1, by simp only [List.length_cons]; omega⟩

/-- **The rest of a line is coloured as in the scan of the text that it begins.** -/
theorem scanFrom_line {gap : List Char} {next : Option (List Char)} (ht : LineEnd gap next) (base : Nat)
    (x : List Char) (offset : Nat) (hx : '\n' ∉ x) (hr : gap = ['\n'] → x.getLast? ≠ some '\r')
    (hs : OneLineStrings (scanFrom true (base + offset) (x ++ (gap ++ next.getD [])))) :
    LineAgrees ⟨base, base + offset + unitLength x⟩ (base + offset + unitLength x + gap.length) next
      (scanFrom true (base + offset) (x ++ (gap ++ next.getD []))) (highlightFrom offset x) := by
  obtain ⟨blanks, rest, hsplit, hb, hrest⟩ := blanks_or x
  have hlen := congrArg List.length hsplit
  rw [hsplit] at hx hr hs ⊢
  rw [highlightFrom_blanks hb]
  rcases rest with _ | ⟨c, y⟩
  · rw [List.append_nil] at hs ⊢
    rw [highlightFrom_nil]
    exact lineAgrees_blanks ht hb rfl hs
  · rw [List.append_assoc] at hs ⊢
    have hskip := placed_of_unflagged (scanFrom_blanks hb (base + offset) (c :: y ++ (gap ++ next.getD [])))
    have hs := oneLineStrings_of_placed hskip hs
    rw [Nat.add_assoc base] at hskip hs
    have hy : '\n' ∉ y := fun h => hx (List.mem_append_right _ (List.mem_cons_of_mem _ h))
    have hyr : gap = ['\n'] → y.getLast? ≠ some '\r' := fun hg h => hr hg (by
      simp [List.getLast?_append, List.getLast?_cons, h])
    have h := lineAgrees_cons ht (hrest c rfl) hy hyr hs fun taken start h =>
      scanFrom_line ht base (y.drop taken) start (fun hm => hy (List.mem_of_mem_drop hm))
        (fun hg hl => hyr hg (getLast?_of_drop hl)) h
    rw [unitLength_append, ← Nat.add_assoc, Nat.add_assoc base]
    exact h.of_placed hskip
termination_by x.length
decreasing_by
  simp only [List.length_append, List.length_cons, List.length_drop] at hlen ⊢
  omega

/-! ### Lines that begin inside a comment or a template -/

theorem blockCommentTail_pos {x : List Char} (h : (blockCommentTail x).2 = true) : 0 < (blockCommentTail x).1 := by
  unfold blockCommentTail at h ⊢
  split <;> simp_all

theorem templateTail_pos {depth : Nat} {x : List Char} (h : (templateTail depth x).2 = none) :
    0 < (templateTail depth x).1 := by
  unfold templateTail at h ⊢
  split <;> simp_all
  split <;> simp

section Pending

variable {gap line : List Char} {next : Option (List Char)} (ht : LineEnd gap next) {offset : Nat}
  {token : Token} (hstart : token.start = offset)
include ht hstart

/-- What the line before left open ends in the line. -/
theorem lineAgrees_closed (hx : '\n' ∉ line) (hr : gap = ['\n'] → line.getLast? ≠ some '\r') {length : Nat}
    (hpos : 0 < length) (hle : length ≤ line.length)
    (hstop : token.stop = offset + unitLength ((line ++ (gap ++ next.getD [])).take length))
    (hs : OneLineStrings (scanFrom true token.stop ((line ++ (gap ++ next.getD [])).drop length))) :
    LineAgrees ⟨offset, offset + unitLength line⟩ (offset + unitLength line + gap.length) next
      (token :: scanFrom true token.stop ((line ++ (gap ++ next.getD [])).drop length))
      (highlightAfter token.kind line length) := by
  rw [List.take_append_of_le_length hle] at hstop
  rw [List.drop_append_of_le_length hle, hstop] at hs
  rw [List.drop_append_of_le_length hle]
  have hlen : unitLength line = unitLength (line.take length) + unitLength (line.drop length) := by
    rw [← unitLength_append, List.take_append_drop]
  have htake : 0 < unitLength (line.take length) := unitLength_pos (by simp; omega)
  have h := scanFrom_line ht offset (line.drop length) (unitLength (line.take length))
    (fun hm => hx (List.mem_of_mem_drop hm)) (fun hg hl => hr hg (getLast?_of_drop hl)) hs
  have hfound : highlightAfter token.kind line length =
      (.ofKind token.kind (token.start - offset) (token.stop - offset) ::
        (highlightFrom (unitLength (line.take length)) (line.drop length)).1,
        (highlightFrom (unitLength (line.take length)) (line.drop length)).2) := by
    rw [hstart, hstop, Nat.sub_self, Nat.add_sub_cancel_left]
    rfl
  rw [Nat.add_assoc offset, ← hlen, ← hstop] at h
  rw [hfound]
  exact h.ends (Nat.le_of_eq hstart.symm) (by omega) (by simp only; omega) (Nat.le_add_right _ _) fun _ => rfl

/-- What the line before left open takes the whole line. -/
theorem lineAgrees_open (state : LineState) {length : Nat} (hle : line.length ≤ length)
    (hstop : token.stop = offset + unitLength ((line ++ (gap ++ next.getD [])).take length))
    (hnone : ∀ more, next = some more → state.open? more = none → length ≤ line.length + gap.length)
    (hsome : ∀ more lexeme, next = some more → state.open? more = some lexeme →
      lexeme.kind = token.kind ∧ length = line.length + gap.length + lexeme.extra)
    (hs : OneLineStrings (scanFrom true token.stop ((line ++ (gap ++ next.getD [])).drop length))) :
    LineAgrees ⟨offset, offset + unitLength line⟩ (offset + unitLength line + gap.length) next
      (token :: scanFrom true token.stop ((line ++ (gap ++ next.getD [])).drop length))
      (if line.isEmpty then [] else [.ofKind token.kind 0 (unitLength line)], state) := by
  subst hstart
  have hlen : unitLength line ≤ unitLength ((line ++ (gap ++ next.getD [])).take length) := by
    obtain ⟨k, hk⟩ := Nat.exists_eq_add_of_le hle
    rw [hk, List.take_length_add_append, unitLength_append]
    exact Nat.le_add_right _ _
  refine .crosses (Nat.le_refl _) (by simp only; omega) (layout_scanFrom true _ _).le_start ?_
    (sameFrom_crossing ht line length hstop rfl hle hnone hsome hs)
  cases line with
  | nil => simp [unitLength]
  | cons c line =>
    have := unitLength_pos (List.length_pos_of_mem (List.mem_cons_self (a := c) (l := line)))
    rw [if_neg (by simp), if_pos (by simp only; omega), Nat.sub_self, Nat.add_sub_cancel_left]

end Pending

/-- **A line is coloured as in the scan of the text that it begins**, whatever state it begins in. -/
theorem highlightLine_clips {gap line : List Char} {next : Option (List Char)} (ht : LineEnd gap next)
    (hx : '\n' ∉ line) (hr : gap = ['\n'] → line.getLast? ≠ some '\r') (state : LineState) (offset : Nat)
    (hs : OneLineStrings (scanIn state offset (line ++ (gap ++ next.getD [])))) :
    LineAgrees ⟨offset, offset + unitLength line⟩ (offset + unitLength line + gap.length) next
      (scanIn state offset (line ++ (gap ++ next.getD []))) (highlightLine state line) := by
  cases state with
  | normal => exact scanFrom_line ht offset line 0 hx hr hs
  | inComment =>
    have hlater := fun t ht => hs t (List.mem_cons_of_mem _ ht)
    have hblock := blockCommentTail_append ht.startsBreak line
    simp only [scanIn, LineState.open?, highlightLine] at hlater ⊢
    split at hblock
    · rename_i hclosed
      obtain ⟨hle, heq⟩ := hblock
      rw [if_pos hclosed]
      rw [heq] at hlater ⊢
      exact lineAgrees_closed ht rfl hx hr (blockCommentTail_pos hclosed) hle rfl hlater
    · rename_i hclosed
      obtain ⟨hlen, heq⟩ := hblock
      rw [if_neg hclosed]
      refine lineAgrees_open ht rfl .inComment (by rw [heq]; exact Nat.le_add_right _ _) rfl
        (fun _ _ h => by cases h) ?_ hlater
      rintro more lexeme hn h
      cases h
      rw [heq, hn, Option.getD_some, blockCommentTail_gap ht hn]
      exact ⟨rfl, by simp only; omega⟩
  | inTemplate depth =>
    have hlater := fun t ht => hs t (List.mem_cons_of_mem _ ht)
    simp only [scanIn, LineState.open?, highlightLine] at hlater ⊢
    split
    · rename_i length hclosed
      have hnone : (templateTail depth line).2 = none := by rw [hclosed]
      obtain ⟨hle, heq⟩ := templateTail_closed ht.startsBreak depth line hnone
      have hpos := templateTail_pos hnone
      rw [heq] at hlater ⊢
      rw [hclosed] at hle hpos hlater ⊢
      exact lineAgrees_closed ht rfl hx hr hpos hle rfl hlater
    · rename_i length openBraces hopen
      have hsome : (templateTail depth line).2 = some openBraces := by rw [hopen]
      obtain ⟨hlen, hle, heq⟩ := templateTail_open ht depth line hsome
      refine lineAgrees_open ht rfl (.inTemplate openBraces) hle rfl (fun _ _ h => by cases h) ?_ hlater
      rintro more lexeme hn h
      cases h
      rw [hn, Option.getD_some, heq more hn]
      exact ⟨rfl, rfl⟩

/-! ### All the lines -/

theorem splitLines_line : ∀ {line : List Char}, '\n' ∉ line → splitLines line = [line]
  | [], _ => rfl
  | c :: line, h => by
    simp only [List.mem_cons, not_or] at h
    rw [splitLines, splitLines_line h.2]
    exact fun hc => h.1 hc.symm

theorem splitLines_feed : ∀ {line : List Char} (more : List Char), '\n' ∉ line →
    splitLines (line ++ '\n' :: more) = line :: splitLines more
  | [], _, _ => rfl
  | c :: line, more, h => by
    simp only [List.mem_cons, not_or] at h
    rw [List.cons_append, splitLines, splitLines_feed more h.2]
    exact fun hc => h.1 hc.symm

/-- A text is one line, or a line and the text behind its line feed. -/
theorem line_or (text : List Char) : ∃ line, '\n' ∉ line ∧
    (text = line ∨ ∃ more, text = line ++ '\n' :: more) := by
  induction text with
  | nil => exact ⟨[], by simp, .inl rfl⟩
  | cons c text ih =>
    by_cases hc : c = '\n'
    · exact ⟨[], by simp, .inr ⟨text, by rw [hc]; rfl⟩⟩
    · obtain ⟨line, hline, htext⟩ := ih
      refine ⟨c :: line, by simp [hline, Ne.symm hc], ?_⟩
      rcases htext with rfl | ⟨more, rfl⟩
      · exact .inl rfl
      · exact .inr ⟨more, rfl⟩

/-- A line without its carriage return, and what ends it. -/
theorem dropCarriageReturn_or (line : List Char) :
    (dropCarriageReturn line = line ∧ line.getLast? ≠ some '\r') ∨
      line = dropCarriageReturn line ++ ['\r'] := by
  unfold dropCarriageReturn
  split
  · rename_i h
    obtain ⟨front, rfl⟩ := List.getLast?_eq_some_iff.1 h
    exact .inr (by simp)
  · rename_i h
    exact .inl ⟨rfl, h⟩

theorem not_mem_dropCarriageReturn {line : List Char} (h : '\n' ∉ line) : '\n' ∉ dropCarriageReturn line := by
  unfold dropCarriageReturn
  split
  · exact fun hm => h (List.dropLast_subset _ hm)
  · exact h

/-- What ends a line. -/
theorem lineEnd_of_line (line : List Char) (next : Option (List Char)) :
    ∃ gap, LineEnd gap next ∧ (gap = ['\n'] → (dropCarriageReturn line).getLast? ≠ some '\r') ∧
      line ++ (next.elim [] ('\n' :: ·)) = dropCarriageReturn line ++ (gap ++ next.getD []) ∧
      (next.isSome → unitLength (dropCarriageReturn line) + gap.length = unitLength line + 1) := by
  rcases dropCarriageReturn_or line with ⟨heq, hlast⟩ | heq
  · rw [heq]
    cases next with
    | none => exact ⟨[], .last, by simp, rfl, by simp⟩
    | some more => exact ⟨['\n'], .feed more, fun _ => hlast, rfl, fun _ => rfl⟩
  · generalize dropCarriageReturn line = front at heq ⊢
    subst heq
    cases next with
    | none => exact ⟨['\r'], .lastReturn, by simp, by simp, by simp⟩
    | some more => exact ⟨['\r', '\n'], .returnFeed more, by simp, by simp, fun _ => by
        rw [unitLength_append]
        rfl⟩

/-- Each line stands at its range in the text. -/
theorem standsAt_lineRanges (before text : List Char) :
    List.Forall₂ (fun line range => StandsAt (before ++ text) range.start range.stop (dropCarriageReturn line))
      (splitLines text) (lineRanges (unitLength before) (splitLines text)) := by
  have hfront : ∀ line rest, StandsAt (before ++ (line ++ rest)) (unitLength before)
      (unitLength before + unitLength (dropCarriageReturn line)) (dropCarriageReturn line) := by
    intro line rest
    rcases dropCarriageReturn_or line with ⟨heq, -⟩ | heq
    · exact ⟨before, rest, by rw [heq, List.append_assoc], rfl, rfl⟩
    · have hrest : line ++ rest = dropCarriageReturn line ++ '\r' :: rest := by
        rw [List.append_cons, ← heq]
      exact ⟨before, '\r' :: rest, by rw [hrest, List.append_assoc], rfl, rfl⟩
  obtain ⟨line, hline, htext⟩ := line_or text
  rcases htext with rfl | ⟨more, rfl⟩
  · rw [splitLines_line hline]
    exact .cons (by simpa using hfront text []) .nil
  · rw [splitLines_feed more hline]
    refine .cons (hfront line _) ?_
    have ih := standsAt_lineRanges (before ++ line ++ ['\n']) more
    rw [unitLength_append, unitLength_append] at ih
    simpa [unitLength, unitWidth] using ih
termination_by text.length

theorem lineRanges_start : ∀ (lines : List (List Char)) (start : Nat),
    ∀ range ∈ lineRanges start lines, start ≤ range.start
  | [], _, _, h => by cases h
  | line :: lines, start, range, h => by
    rcases List.mem_cons.1 h with rfl | h
    · exact Nat.le_refl _
    · have := lineRanges_start lines _ range h
      omega

/-- The lines of a text that begins in a state are coloured as its scan in that state is. -/
theorem highlightAll_clips (state : LineState) (offset : Nat) (text : List Char)
    (hs : OneLineStrings (scanIn state offset text)) :
    highlightAll state ((splitLines text).map dropCarriageReturn) =
      (lineRanges offset (splitLines text)).map fun range => clips range (scanIn state offset text) := by
  obtain ⟨line, hline, htext⟩ := line_or text
  rcases htext with rfl | ⟨more, rfl⟩
  · obtain ⟨gap, ht, hr, hsplit, -⟩ := lineEnd_of_line text none
    rw [Option.elim_none, List.append_nil] at hsplit
    rw [hsplit] at hs
    have h := highlightLine_clips ht (not_mem_dropCarriageReturn hline) hr state offset hs
    rw [← hsplit] at h
    rw [splitLines_line hline]
    simp only [List.map_cons, List.map_nil, lineRanges, highlightAll, h.spans]
  · obtain ⟨gap, ht, hr, hsplit, hlen⟩ := lineEnd_of_line line (some more)
    rw [Option.elim_some, Option.getD_some] at hsplit
    rw [hsplit] at hs
    have h := highlightLine_clips ht (not_mem_dropCarriageReturn hline) hr state offset hs
    have hafter : offset + unitLength (dropCarriageReturn line) + gap.length = offset + unitLength line + 1 := by
      have := hlen rfl
      omega
    obtain ⟨hsame, hstrings⟩ := h.goesOn more rfl
    rw [Option.getD_some, ← hsplit] at h hsame
    rw [hafter] at hsame hstrings
    have ih := highlightAll_clips _ _ more hstrings
    rw [splitLines_feed more hline]
    simp only [List.map_cons, lineRanges, highlightAll, h.spans, ih]
    refine congrArg _ (List.map_congr_left fun range hrange => (hsame range ?_).symm)
    exact lineRanges_start _ _ range hrange
termination_by text.length

/-- **Colouring line by line is scanning the whole text**: each line of a script shows the parts
in it of the tokens of one scan, in order, with their kinds, and nothing else. -/
theorem highlightLines_eq_clips (text : List Char) (h : OneLineStrings (tokenizeWithComments text)) :
    highlightLines text =
      (lineRanges 0 (splitLines text)).map fun range => clips range (tokenizeWithComments text) :=
  highlightAll_clips .normal 0 text h

/-- A comment and a template, each across the end of a line. -/
theorem highlightLines_across_lines :
    OneLineStrings (tokenizeWithComments "a /* b\r\n*/ `c\nd`".toList) ∧
      highlightLines "a /* b\r\n*/ `c\nd`".toList =
        [[.ofKind .identifier 0 1, .ofKind .comment 2 6], [.ofKind .comment 0 2, .ofKind .template 3 5],
          [.ofKind .template 0 2]] := by
  have h : OneLineStrings (tokenizeWithComments "a /* b\r\n*/ `c\nd`".toList) := by decide +kernel
  exact ⟨h, (highlightLines_eq_clips _ h).trans (by decide +kernel)⟩

end Typeahead
