/-
# Scanning loses nothing

The tokens of a script lie in its text one after the other: each is the piece of
text that its range says, and what stands between two of them is blank or, where
comments are no tokens, a comment. `Layout` says this along the recursion of
`scanFrom`: a gap, a token, and the layout of what is left. What holds of the
whole list of tokens (`Covers`) is read off a layout with the text before it put
back in front.

The two scans differ only in what becomes of a comment. A comment that is skipped
moves the default scan on to the text behind it (`placed_scanFrom_comment`), and
that is where the other scan goes on after its comment token.

Key definitions: `Text.StandsAt`, `IsGap`, `Covers`, `Token.placed`, `Layout`.
Key theorems: `layout_scanFrom`, `covers_scanFrom`, `placed_scanFrom`,
`tokenize_lossless`.
-/
import Mathlib.Tactic.Common
import Typeahead.Token.Scan

namespace Typeahead

open Text

/-- `piece` stands in `text` from the offset `start` to the offset `stop`. -/
def Text.StandsAt (text : List Char) (start stop : Nat) (piece : List Char) : Prop :=
  ∃ before after, text = before ++ piece ++ after ∧ start = unitLength before ∧
    stop = start + unitLength piece

/-- A text of blanks and, where they are allowed, comments. A line comment reaches to
the end of its line and a block comment to the first `*/`; only the last gap of a
script may end inside a comment. -/
inductive IsGap (comments last : Bool) : List Char → Prop where
  | nil : IsGap comments last []
  | blank {c text} : isBlank c = true → IsGap comments last text → IsGap comments last (c :: text)
  | line {body text} : comments = true → '\n' ∉ body →
      (['\n'] <+: text ∨ ['\r', '\n'] <+: text ∨ (text = [] ∧ last = true)) →
      IsGap comments last text → IsGap comments last ('/' :: '/' :: (body ++ text))
  | block {body text} : comments = true → ¬ ['*', '/'] <:+: body →
      IsGap comments last text → IsGap comments last ('/' :: '*' :: (body ++ '*' :: '/' :: text))
  | unclosed {body} : comments = true → last = true → ¬ ['*', '/'] <:+: body →
      IsGap comments last ('/' :: '*' :: body)

/-- The tokens give the text back: they end with the one end of the input, at the end
of the text, each stands where its range says, in order, and only gaps are between. -/
structure Covers (keepComments : Bool) (text : List Char) (tokens : List Token) : Prop where
  endsOnce : ∃ front last, tokens = front ++ [last] ∧ last.kind = .endOfInput ∧ last.text = "" ∧
    last.start = unitLength text ∧ last.stop = unitLength text ∧
    ∀ t ∈ front, t.kind ≠ .endOfInput ∧ t.text ≠ ""
  inOrder : tokens.Pairwise fun a b => a.stop ≤ b.start
  spelled : ∀ t ∈ tokens, StandsAt text t.start t.stop t.text.toList
  gapBefore : ∀ t back, tokens = t :: back →
    ∃ gap, StandsAt text 0 t.start gap ∧ IsGap (!keepComments) back.isEmpty gap
  gapBetween : ∀ front s t back, tokens = front ++ s :: t :: back →
    ∃ gap, StandsAt text s.stop t.start gap ∧ IsGap (!keepComments) back.isEmpty gap

/-- What the two scans have in common of a token. -/
def Token.placed (t : Token) : TokenKind × String × Nat × Nat := (t.kind, t.text, t.start, t.stop)

/-- Tokens that lie one after the other in a text, which begins at an offset. -/
inductive Layout (keepComments : Bool) : Nat → List Char → List Token → Prop where
  | done {offset gap t} : IsGap (!keepComments) true gap → t.kind = .endOfInput → t.text = "" →
      t.start = offset + unitLength gap → t.stop = t.start → Layout keepComments offset gap [t]
  | token {offset gap rest t tokens} : IsGap (!keepComments) false gap → t.kind ≠ .endOfInput →
      t.text ≠ "" → t.start = offset + unitLength gap →
      t.stop = t.start + unitLength t.text.toList → Layout keepComments t.stop rest tokens →
      Layout keepComments offset (gap ++ t.text.toList ++ rest) (t :: tokens)

/-! ### Gaps -/

theorem IsGap.blanks {comments last : Bool} {text : List Char} (h : IsGap comments last text) :
    ∀ {front : List Char}, (∀ c ∈ front, isBlank c = true) → IsGap comments last (front ++ text)
  | [], _ => h
  | _ :: _, hf => .blank (hf _ List.mem_cons_self)
      (h.blanks fun d hd => hf d (List.mem_cons_of_mem _ hd))

theorem isBlank_of_mem_takeWhile {c : Char} {text : List Char} (h : c ∈ text.takeWhile isBlank) :
    isBlank c = true := List.all_eq_true.1 List.all_takeWhile c h

/-- A line comment stops before the end of its line. -/
theorem lineComment_stops : ∀ text : List Char,
    '\n' ∉ text.take (lineCommentLength text) ∧
      (['\n'] <+: text.drop (lineCommentLength text) ∨
        ['\r', '\n'] <+: text.drop (lineCommentLength text) ∨
        text.drop (lineCommentLength text) = [])
  | [] => by simp [lineCommentLength]
  | c :: text => by
    unfold lineCommentLength
    split
    · next h => simp at h
    · next h => simp at h; simp [h.1]
    · next h => simp at h; simp [h.1, h.2]
    · next d rest hn _ h =>
      obtain ⟨rfl, rfl⟩ := List.cons.inj h
      have hc : '\n' ≠ c := fun he => hn he.symm
      obtain ⟨h1, h2⟩ := lineComment_stops text
      exact ⟨by simpa [hc] using h1, by simpa using h2⟩

/-- A block comment is closed at the first `*/`, or is never closed and takes all the
text. -/
theorem blockComment_stops : ∀ text : List Char,
    (∃ body rest, text = body ++ '*' :: '/' :: rest ∧ blockCommentTail text = (body.length + 2, true) ∧
      ¬ ['*', '/'] <:+: body) ∨
    (blockCommentTail text = (text.length, false) ∧ ¬ ['*', '/'] <:+: text)
  | [] => .inr ⟨rfl, by simp⟩
  | c :: text => by
    by_cases hc : ['*', '/'] <+: c :: text
    · obtain ⟨rest, h⟩ := hc
      refine .inl ⟨[], rest, h.symm, ?_, by simp⟩
      rw [← h]
      simp [blockCommentTail]
    · have hstep : blockCommentTail (c :: text) =
          ((blockCommentTail text).1 + 1, (blockCommentTail text).2) := by
        rw [blockCommentTail]
        rintro rest rfl rfl
        exact hc ⟨rest, rfl⟩
      rcases blockComment_stops text with ⟨body, rest, rfl, h2, h3⟩ | ⟨h2, h3⟩
      · refine .inl ⟨c :: body, rest, rfl, by rw [hstep, h2]; rfl, ?_⟩
        rw [List.infix_cons_iff]
        rintro (h | h)
        · obtain ⟨tail, ht⟩ := h
          exact hc ⟨tail ++ '*' :: '/' :: rest, by rw [← List.cons_append, ← ht]; simp⟩
        · exact h3 h
      · refine .inr ⟨by rw [hstep, h2]; rfl, ?_⟩
        rw [List.infix_cons_iff]
        rintro (h | h)
        · exact hc h
        · exact h3 h

theorem take_takeWhile_isBlank (text : List Char) :
    text.take (text.takeWhile isBlank).length = text.takeWhile isBlank :=
  (List.prefix_iff_eq_take.1 (List.takeWhile_prefix _)).symm

theorem takeWhile_le_triviaLength (keepComments : Bool) (text : List Char) :
    (text.takeWhile isBlank).length ≤ triviaLength keepComments text := by
  rw [triviaLength]
  dsimp only
  split <;> omega

/-- Blanks that a text begins with are among what is taken of it, if no fewer
characters are taken than there are blanks. -/
theorem blanks_prefix_take {front text : List Char} {taken : Nat} (h : front <+: text)
    (hf : ∀ c ∈ front, isBlank c = true) (hn : (text.takeWhile isBlank).length ≤ taken) :
    front <+: text.take taken := by
  obtain ⟨rest, rfl⟩ := h
  refine List.prefix_take_iff.2 ⟨List.prefix_append .., ?_⟩
  rw [List.takeWhile_append_of_pos hf] at hn
  simp only [List.length_append] at hn
  omega

/-- A comment and a gap after it are a gap. -/
theorem isGap_comment {text : List Char} (h : startsComment text = true) {taken : Nat}
    (hn : ((text.drop (commentExtent text).1).takeWhile isBlank).length ≤ taken)
    (hrest : IsGap true ((text.drop (commentExtent text).1).drop taken).isEmpty
      ((text.drop (commentExtent text).1).take taken)) :
    IsGap true ((text.drop (commentExtent text).1).drop taken).isEmpty
      (text.take ((commentExtent text).1 + taken)) := by
  unfold startsComment at h
  split at h
  · next body =>
    simp only [commentExtent, List.drop_succ_cons] at hn hrest ⊢
    obtain ⟨h1, h2⟩ := lineComment_stops body
    rw [Nat.add_right_comm, List.take_succ_cons, List.take_succ_cons, List.take_add]
    refine .line rfl h1 ?_ hrest
    rcases h2 with h2 | h2 | h2
    · exact .inl (blanks_prefix_take h2 (by decide) hn)
    · exact .inr (.inl (blanks_prefix_take h2 (by decide) hn))
    · exact .inr (.inr (by simp [h2]))
  · next body =>
    rcases blockComment_stops body with ⟨inner, rest, rfl, h2, h3⟩ | ⟨h2, h3⟩
    · have hd : (inner ++ '*' :: '/' :: rest).drop (inner.length + 2) = rest := by simp
      simp only [commentExtent, h2, List.drop_succ_cons, hd] at hn hrest ⊢
      have ht : (inner ++ '*' :: '/' :: rest).take (inner.length + 2 + taken) =
          inner ++ '*' :: '/' :: rest.take taken := by
        rw [List.take_add, hd, List.take_length_add_append]
        simp
      rw [Nat.add_right_comm, List.take_succ_cons, List.take_succ_cons, ht]
      exact .block rfl h3 hrest
    · have hd : body.drop body.length = [] := List.drop_length
      simp only [commentExtent, h2, List.drop_succ_cons, hd, List.drop_nil, List.isEmpty_nil]
      rw [Nat.add_right_comm, List.take_succ_cons, List.take_succ_cons,
        List.take_of_length_le (by omega)]
      exact .unclosed rfl rfl h3
  · simp at h

/-- The blanks and comments that a text begins with are a gap, the last if nothing
else follows. -/
theorem isGap_trivia (keepComments : Bool) (text : List Char) :
    IsGap (!keepComments) (text.drop (triviaLength keepComments text)).isEmpty
      (text.take (triviaLength keepComments text)) := by
  fun_induction triviaLength keepComments text with
  | case1 text blanks h skipped ih =>
    obtain ⟨hk, hc⟩ := Bool.and_eq_true_iff.1 h
    have hdrop : text.drop skipped = (text.drop blanks).drop (commentExtent (text.drop blanks)).1 := by
      rw [List.drop_drop]
    rw [hk, hdrop] at ih
    have hgap := isGap_comment hc (takeWhile_le_triviaLength keepComments _) ih
    rw [← hdrop] at hgap
    rw [hk, ← List.drop_drop, Nat.add_assoc, List.take_add, take_takeWhile_isBlank]
    exact hgap.blanks fun c => isBlank_of_mem_takeWhile
  | case2 text blanks h =>
    rw [take_takeWhile_isBlank]
    simpa using IsGap.nil.blanks fun c => isBlank_of_mem_takeWhile

/-! ### One scan -/

theorem ofWord_ne (word : String) :
    TokenKind.ofWord word ≠ .endOfInput ∧ TokenKind.ofWord word ≠ .comment := by
  unfold TokenKind.ofWord TokenKind.keyword?
  split
  · simp
  · split <;> simp

/-- No piece of text is the end of the input, and a piece that begins no comment is
none. -/
theorem read_kind (keepComments : Bool) (c : Char) (rest : List Char) :
    (Lexeme.read keepComments c rest).kind ≠ .endOfInput ∧
      ((keepComments && startsComment (c :: rest)) = false →
        (Lexeme.read keepComments c rest).kind ≠ .comment) := by
  unfold Lexeme.read
  split
  · next h => exact ⟨by simp, fun h' => by simp [h] at h'⟩
  · repeat' split
    all_goals first | exact ⟨(ofWord_ne _).1, fun _ => (ofWord_ne _).2⟩ | simp

/-- Without comments among the tokens, or where none begins, both scans read the same. -/
theorem read_eq_of_not_comment {c : Char} {rest : List Char} (h : startsComment (c :: rest) = false) :
    Lexeme.read true c rest = Lexeme.read false c rest := by
  simp [Lexeme.read, h]

/-- **The tokens of a scan lie one after the other in the text.** -/
theorem layout_scanFrom (keepComments : Bool) (offset : Nat) (text : List Char) :
    Layout keepComments offset text (scanFrom keepComments offset text) := by
  fun_induction scanFrom keepComments offset text with
  | case1 offset text skipped start broken h =>
    have hgap := isGap_trivia keepComments text
    rw [h, List.isEmpty_nil] at hgap
    have hall : text.take skipped = text := by
      rw [← List.append_nil (text.take skipped), ← h, List.take_append_drop]
    rw [hall] at hgap
    exact Layout.done hgap rfl rfl (by simp [Token.endOfInput, start, hall]) rfl
  | case2 offset text skipped start broken c rest h lexeme token ih =>
    have hgap := isGap_trivia keepComments text
    rw [h] at hgap
    have hchars : token.text.toList = c :: rest.take lexeme.extra := by simp [token, Lexeme.toToken]
    have hlayout : Layout keepComments offset
        (text.take skipped ++ token.text.toList ++ rest.drop lexeme.extra)
        (token :: scanFrom keepComments token.stop (rest.drop lexeme.extra)) :=
      .token hgap (read_kind keepComments c rest).1
        (by simp [token, Lexeme.toToken, String.ext_iff]) rfl (by rw [hchars]; rfl) ih
    have hsplit : text = text.take skipped ++ token.text.toList ++ rest.drop lexeme.extra := by
      rw [hchars, List.append_assoc, List.cons_append, List.take_append_drop, ← h,
        List.take_append_drop]
    rw [← hsplit] at hlayout
    exact hlayout

/-! ### The whole text -/

namespace Layout

variable {keepComments : Bool} {offset : Nat} {text : List Char} {tokens : List Token}

theorem ne_nil (h : Layout keepComments offset text tokens) : tokens ≠ [] := by
  cases h <;> simp

theorem le_start (h : Layout keepComments offset text tokens) : ∀ t ∈ tokens, offset ≤ t.start := by
  induction h with
  | done _ _ _ hs _ => simp [hs]
  | token _ _ _ hs hstop _ ih =>
    simp only [List.mem_cons, forall_eq_or_imp]
    exact ⟨by omega, fun u hu => by have := ih u hu; omega⟩

theorem inOrder (h : Layout keepComments offset text tokens) :
    tokens.Pairwise fun a b => a.stop ≤ b.start := by
  induction h with
  | done => simp
  | token _ _ _ _ _ hrest ih => exact List.pairwise_cons.2 ⟨hrest.le_start, ih⟩

theorem endsOnce (h : Layout keepComments offset text tokens) :
    ∃ front last, tokens = front ++ [last] ∧ last.kind = .endOfInput ∧ last.text = "" ∧
      last.start = offset + unitLength text ∧ last.stop = offset + unitLength text ∧
      ∀ t ∈ front, t.kind ≠ .endOfInput ∧ t.text ≠ "" := by
  induction h with
  | @done _ _ t _ hk ht hs hstop => exact ⟨[], t, rfl, hk, ht, hs, hstop.trans hs, by simp⟩
  | @token _ _ _ t _ _ hk ht hs hstop _ ih =>
    obtain ⟨front, last, rfl, h1, h2, h3, h4, h5⟩ := ih
    simp only [unitLength_append]
    refine ⟨t :: front, last, rfl, h1, h2, by omega, by omega, ?_⟩
    simp only [List.mem_cons, forall_eq_or_imp]
    exact ⟨⟨hk, ht⟩, h5⟩

/-- Each token stands where its range says, whatever text comes before. -/
theorem spelled (h : Layout keepComments offset text tokens) :
    ∀ before, offset = unitLength before →
      ∀ t ∈ tokens, StandsAt (before ++ text) t.start t.stop t.text.toList := by
  induction h with
  | @done _ gap t _ _ ht hs hstop =>
    rintro before rfl
    simp only [List.mem_singleton, forall_eq]
    exact ⟨before ++ gap, [], by simp [ht], by simp [hs, unitLength_append], by simp [hstop, ht, unitLength]⟩
  | @token _ gap rest t _ _ _ _ hs hstop _ ih =>
    rintro before rfl
    simp only [List.mem_cons, forall_eq_or_imp]
    refine ⟨⟨before ++ gap, rest, by simp, by simp [hs, unitLength_append], hstop⟩, ?_⟩
    have := ih (before ++ gap ++ t.text.toList) (by simp only [unitLength_append]; omega)
    simpa using this

/-- A gap comes before the first token, the last gap if that is the only one. -/
theorem gapBefore (h : Layout keepComments offset text tokens) (before : List Char)
    (hb : offset = unitLength before) {t : Token} {back : List Token} (ht : tokens = t :: back) :
    ∃ gap, StandsAt (before ++ text) offset t.start gap ∧ IsGap (!keepComments) back.isEmpty gap := by
  cases h with
  | @done _ gap _ hg _ _ hs _ =>
    obtain ⟨rfl, rfl⟩ := List.cons.inj ht
    exact ⟨text, ⟨before, [], by simp, hb, hs⟩, hg⟩
  | @token _ gap rest u _ hg _ _ hs _ hrest =>
    obtain ⟨rfl, rfl⟩ := List.cons.inj ht
    rw [List.isEmpty_eq_false_iff.2 hrest.ne_nil]
    exact ⟨gap, ⟨before, u.text.toList ++ rest, by simp, hb, hs⟩, hg⟩

/-- A gap stands between two tokens, the last gap if the second is the last token. -/
theorem gapBetween (h : Layout keepComments offset text tokens) :
    ∀ before, offset = unitLength before → ∀ front s t back, tokens = front ++ s :: t :: back →
      ∃ gap, StandsAt (before ++ text) s.stop t.start gap ∧
        IsGap (!keepComments) back.isEmpty gap := by
  induction h with
  | done =>
    intro before _ front s t back ht
    have := congrArg List.length ht
    simp at this
    omega
  | @token _ gap rest u _ _ _ _ hs hstop hrest ih =>
    rintro before rfl front s t back ht
    have hb : u.stop = unitLength (before ++ gap ++ u.text.toList) := by
      simp only [unitLength_append]; omega
    rw [← List.append_assoc, ← List.append_assoc]
    cases front with
    | nil =>
      obtain ⟨rfl, htail⟩ := List.cons.inj ht
      exact hrest.gapBefore _ hb htail
    | cons v front =>
      obtain ⟨rfl, htail⟩ := List.cons.inj ht
      exact ih _ hb front s t back htail

end Layout

/-- **A scan covers its text.** -/
theorem covers_scanFrom (keepComments : Bool) (text : List Char) :
    Covers keepComments text (scanFrom keepComments 0 text) := by
  have h := layout_scanFrom keepComments 0 text
  refine ⟨?_, h.inOrder, h.spelled [] rfl, fun t back ht => h.gapBefore [] rfl ht,
    h.gapBetween [] rfl⟩
  simpa using h.endsOnce

/-! ### The two scans -/

/-- A scan by what the two scans have in common: the token after the gap, and the rest. -/
theorem placed_scanFrom (keepComments : Bool) (offset : Nat) (text : List Char) :
    (scanFrom keepComments offset text).map Token.placed =
      match text.drop (triviaLength keepComments text) with
      | [] => [(.endOfInput, "", offset + unitLength (text.take (triviaLength keepComments text)),
          offset + unitLength (text.take (triviaLength keepComments text)))]
      | c :: rest =>
        let lexeme := Lexeme.read keepComments c rest
        let start := offset + unitLength (text.take (triviaLength keepComments text))
        let chars := c :: rest.take lexeme.extra
        (lexeme.kind, String.ofList chars, start, start + unitLength chars) ::
          (scanFrom keepComments (start + unitLength chars) (rest.drop lexeme.extra)).map
            Token.placed := by
  rw [scanFrom]
  split
  · next h => simp only [h]; rfl
  · next h => simp only [h]; rfl

/-- The default scan goes on behind a comment. Only whether a line ended before the
next token may differ. -/
theorem placed_scanFrom_skip {offset : Nat} {text : List Char} {skipped : Nat}
    (hskip : triviaLength false text = skipped + triviaLength false (text.drop skipped)) :
    (scanFrom false offset text).map Token.placed =
      (scanFrom false (offset + unitLength (text.take skipped)) (text.drop skipped)).map
        Token.placed := by
  have hdrop : text.drop (triviaLength false text) =
      (text.drop skipped).drop (triviaLength false (text.drop skipped)) := by
    rw [List.drop_drop, ← hskip]
  have hlen : unitLength (text.take (triviaLength false text)) = unitLength (text.take skipped) +
      unitLength ((text.drop skipped).take (triviaLength false (text.drop skipped))) := by
    rw [hskip, List.take_add, unitLength_append]
  rw [placed_scanFrom, placed_scanFrom false _ (text.drop skipped), hdrop, hlen, Nat.add_assoc]

theorem triviaLength_true (text : List Char) :
    triviaLength true text = (text.takeWhile isBlank).length := by
  rw [triviaLength]
  simp

/-- Where no comment follows the blanks, the two scans skip the same. -/
theorem triviaLength_false_of_not_comment {text : List Char}
    (h : startsComment (text.drop (triviaLength true text)) = false) :
    triviaLength false text = triviaLength true text := by
  rw [triviaLength_true] at h ⊢
  rw [triviaLength]
  simp [h]

/-- Where a comment follows them, the default scan skips it too. -/
theorem triviaLength_false_of_comment {text : List Char} {skipped : Nat}
    (h : startsComment (text.drop (triviaLength true text)) = true)
    (hs : skipped = triviaLength true text + (commentExtent (text.drop (triviaLength true text))).1) :
    triviaLength false text = skipped + triviaLength false (text.drop skipped) := by
  subst hs
  rw [triviaLength_true] at h ⊢
  rw [triviaLength]
  simp [h]

/-- **The scan that keeps comments is the default scan once its comments are deleted.** -/
theorem placed_filter_scanFrom (offset : Nat) (text : List Char) :
    ((scanFrom true offset text).filter (·.kind != .comment)).map Token.placed =
      (scanFrom false offset text).map Token.placed := by
  fun_induction scanFrom true offset text with
  | case1 offset text skipped start broken h =>
    have hsame : triviaLength false text = triviaLength true text :=
      triviaLength_false_of_not_comment (by rw [h]; rfl)
    rw [placed_scanFrom, hsame, h]
    rfl
  | case2 offset text skipped start broken c rest h lexeme token ih =>
    cases hc : startsComment (c :: rest) with
    | false =>
      have hsame : triviaLength false text = triviaLength true text :=
        triviaLength_false_of_not_comment (by rw [h]; exact hc)
      have hkind : token.kind ≠ .comment := (read_kind true c rest).2 hc
      rw [placed_scanFrom false, hsame, h, List.filter_cons_of_pos (by simpa using hkind),
        List.map_cons, ih]
      dsimp only
      rw [← read_eq_of_not_comment hc]
      rfl
    | true =>
      have hread : lexeme = ⟨.comment, (commentExtent (c :: rest)).1 - 1,
          !(commentExtent (c :: rest)).2⟩ := by
        simp [lexeme, Lexeme.read, hc]
      have hkind : token.kind = .comment := congrArg Lexeme.kind hread
      have hextra : lexeme.extra + 1 = (commentExtent (c :: rest)).1 := by
        have := two_le_commentExtent hc
        rw [hread]
        dsimp only
        omega
      -- behind the comment both scans are at the same place
      have hdrop : text.drop (skipped + (lexeme.extra + 1)) = rest.drop lexeme.extra := by
        rw [← List.drop_drop, h, List.drop_succ_cons]
      have hstop : offset + unitLength (text.take (skipped + (lexeme.extra + 1))) = token.stop := by
        rw [List.take_add, h, unitLength_append, List.take_succ_cons, ← Nat.add_assoc]
        rfl
      have hskip : triviaLength false text = skipped + (lexeme.extra + 1) +
          triviaLength false (text.drop (skipped + (lexeme.extra + 1))) :=
        triviaLength_false_of_comment (by rw [h]; exact hc) (by rw [h, ← hextra])
      rw [List.filter_cons_of_neg (by simp [hkind]), ih, placed_scanFrom_skip hskip, hstop, hdrop]

/-- **Scanning loses nothing.** With comments or without, the tokens cover the text,
and without its comments the scan that keeps them is the default scan. -/
theorem tokenize_lossless (text : List Char) :
    Covers false text (tokenize text) ∧ Covers true text (tokenizeWithComments text) ∧
      ((tokenizeWithComments text).filter (·.kind != .comment)).map Token.placed =
        (tokenize text).map Token.placed :=
  ⟨covers_scanFrom false text, covers_scanFrom true text, placed_filter_scanFrom 0 text⟩

end Typeahead
