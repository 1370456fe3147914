/-
# Line feeds with carriage returns

A text may end its lines with a line feed, or with a carriage return before it. Blanks, comments and
templates take both characters where they take the one, and every other lexeme ends before either. A
string is the exception: a backslash takes one character with it, so a string that goes on behind a line
feed breaks off behind the carriage return. That is the only difference: the tokens of the two texts
correspond exactly if no string holds a line feed.

Key definitions: `Text.withReturns`, `Text.movedTo`, `Token.Matches`, `Lexeme.Moves`.
Key theorems: `stringTail_withReturns`, `templateTail_withReturns`, `moves_read`, `triviaLength_withReturns`,
`matches_scanFrom_iff`, `tokenize_withReturns_iff`.
-/
import Mathlib.Data.List.Forall2
import Typeahead.Proofs.Highlight

namespace Typeahead

open Text

namespace Text

/-- A text with a carriage return before every line feed. -/
def withReturns (text : List Char) : List Char :=
  text.flatMap fun c => if c = '\n' then ['\r', '\n'] else [c]

/-- Where the place behind the first `n` characters of a text is in the text with carriage returns. -/
def movedTo (text : List Char) (n : Nat) : Nat := (withReturns (text.take n)).length

variable {c : Char} {text : List Char}

theorem withReturns_nil : withReturns [] = [] := rfl

theorem withReturns_feed (text : List Char) : withReturns ('\n' :: text) = '\r' :: '\n' :: withReturns text := rfl

theorem withReturns_cons (h : c ≠ '\n') (text : List Char) : withReturns (c :: text) = c :: withReturns text := by
  rw [withReturns, List.flatMap_cons, if_neg h]
  rfl

theorem withReturns_append (a b : List Char) : withReturns (a ++ b) = withReturns a ++ withReturns b :=
  List.flatMap_append

theorem withReturns_of_not_mem : ∀ {text : List Char}, '\n' ∉ text → withReturns text = text
  | [], _ => rfl
  | c :: text, h => by
    simp only [List.mem_cons, not_or] at h
    rw [withReturns_cons (Ne.symm h.1), withReturns_of_not_mem h.2]

/-- With carriage returns a text begins with no other character, but for the carriage return of a line feed. -/
theorem head?_of_withReturns (hc : c ≠ '\r') (h : (withReturns text).head? = some c) : ∃ rest, text = c :: rest := by
  cases text with
  | nil => cases h
  | cons d text =>
    by_cases hd : d = '\n'
    · subst hd
      exact absurd (Option.some.inj h).symm hc
    · rw [withReturns_cons hd] at h
      exact ⟨text, by rw [Option.some.inj h]⟩

theorem take_movedTo (text : List Char) (n : Nat) :
    (withReturns text).take (movedTo text n) = withReturns (text.take n) := by
  conv_lhs => rw [← List.take_append_drop n text, withReturns_append]
  exact List.take_left' (by rw [movedTo, List.take_append_drop])

theorem drop_movedTo (text : List Char) (n : Nat) :
    (withReturns text).drop (movedTo text n) = withReturns (text.drop n) := by
  conv_lhs => rw [← List.take_append_drop n text, withReturns_append]
  exact List.drop_left' (by rw [movedTo, List.take_append_drop])

theorem movedTo_zero (text : List Char) : movedTo text 0 = 0 := by
  rw [movedTo, List.take_zero]
  rfl

theorem movedTo_feed (text : List Char) (n : Nat) : movedTo ('\n' :: text) (n + 1) = movedTo text n + 2 := rfl

theorem movedTo_cons (h : c ≠ '\n') (text : List Char) (n : Nat) : movedTo (c :: text) (n + 1) = movedTo text n + 1 := by
  rw [movedTo, List.take_succ_cons, withReturns_cons h]
  rfl

theorem movedTo_add (text : List Char) (n m : Nat) :
    movedTo text (n + m) = movedTo text n + movedTo (text.drop n) m := by
  rw [movedTo, List.take_add, withReturns_append, List.length_append]
  rfl

/-- A place is not moved by line feeds behind it. -/
theorem movedTo_of_not_mem {n : Nat} (hn : n ≤ text.length) (h : '\n' ∉ text.take n) : movedTo text n = n := by
  rw [movedTo, withReturns_of_not_mem h, List.length_take, Nat.min_eq_left hn]

/-- A property that does not tell the two line terminators apart and ends a run ends it at the same place. -/
theorem takeWhile_withReturns {p : Char → Bool} (h : p '\r' = p '\n') : ∀ text : List Char,
    (withReturns text).takeWhile p = withReturns (text.takeWhile p)
  | [] => rfl
  | c :: text => by
    have ih := takeWhile_withReturns h text
    by_cases hc : c = '\n'
    · subst hc
      cases hp : p '\n' with
      | true => simp [withReturns_feed, h, hp, ih]
      | false => simp [withReturns_feed, h, hp, withReturns_nil]
    · cases hp : p c with
      | true => simp [withReturns_cons hc, hp, ih]
      | false => simp [withReturns_cons hc, hp, withReturns_nil]

theorem any_withReturns {p : Char → Bool} (h : p '\n' = true ∨ p '\r' = false) : ∀ text : List Char,
    (withReturns text).any p = text.any p
  | [] => rfl
  | c :: text => by
    have ih := any_withReturns h text
    by_cases hc : c = '\n'
    · subst hc
      rcases h with h | h <;> simp [withReturns_feed, h, ih]
    · simp [withReturns_cons hc, ih]

end Text

/-! ### Comments -/

theorem startsComment_withReturns (text : List Char) : startsComment (withReturns text) = startsComment text := by
  rcases text with _ | ⟨c, text⟩
  · rfl
  by_cases hc : c = '\n'
  · subst hc
    rfl
  rw [withReturns_cons hc]
  rcases text with _ | ⟨d, text⟩
  · rfl
  by_cases hd : d = '\n'
  · subst hd
    rw [withReturns_feed]
    simp [startsComment]
  · rw [withReturns_cons hd]
    by_cases h : c = '/' ∧ (d = '/' ∨ d = '*')
    · rcases h with ⟨rfl, rfl | rfl⟩ <;> rfl
    · have hnone : ∀ rest, startsComment (c :: d :: rest) = false := by
        intro rest
        unfold startsComment
        split <;> simp_all
      rw [hnone, hnone]

/-- A line comment ends before the carriage return. -/
theorem lineCommentLength_withReturns : ∀ text : List Char, '\r' ∉ text →
    lineCommentLength (withReturns text) = movedTo text (lineCommentLength text)
  | [], _ => rfl
  | c :: text, h => by
    simp only [List.mem_cons, not_or] at h
    by_cases hc : c = '\n'
    · subst hc
      rw [withReturns_feed]
      simp only [lineCommentLength, movedTo_zero]
    · have hstep : ∀ rest, lineCommentLength (c :: rest) = lineCommentLength rest + 1 := by
        intro rest
        rw [lineCommentLength]
        · exact fun h => hc h
        · exact fun _ hr => absurd hr.symm h.1
      rw [withReturns_cons hc, hstep, hstep, movedTo_cons hc, lineCommentLength_withReturns text h.2]

theorem blockCommentTail_withReturns (text : List Char) :
    blockCommentTail (withReturns text) = (movedTo text (blockCommentTail text).1, (blockCommentTail text).2) := by
  fun_induction blockCommentTail text with
  | case1 => rfl
  | case2 text =>
    rw [withReturns_cons (by decide), withReturns_cons (by decide), blockCommentTail, movedTo_cons (by decide),
      movedTo_cons (by decide), movedTo_zero]
  | case3 c text hclose ih =>
    by_cases hc : c = '\n'
    · subst hc
      rw [withReturns_feed, movedTo_feed]
      simp [blockCommentTail, ih]
    · have hstep : blockCommentTail (c :: withReturns text) =
          ((blockCommentTail (withReturns text)).1 + 1, (blockCommentTail (withReturns text)).2) := by
        rw [blockCommentTail]
        rintro rest rfl hslash
        -- the slash behind an asterisk would close the comment without carriage returns, too
        obtain ⟨more, rfl⟩ := head?_of_withReturns (c := '/') (by decide) (by rw [hslash]; rfl)
        exact hclose more rfl rfl
      rw [withReturns_cons hc, movedTo_cons hc, hstep, ih]

/-- A comment takes the same characters. -/
theorem commentExtent_withReturns {text : List Char} (h : '\r' ∉ text) (hc : startsComment text = true) :
    commentExtent (withReturns text) = (movedTo text (commentExtent text).1, (commentExtent text).2) := by
  unfold startsComment at hc
  split at hc
  · rename_i body
    have hbody : '\r' ∉ body := fun hr => h (List.mem_cons_of_mem _ (List.mem_cons_of_mem _ hr))
    rw [withReturns_cons (by decide), withReturns_cons (by decide)]
    simp only [commentExtent, lineCommentLength_withReturns body hbody, movedTo_cons (show '/' ≠ '\n' by decide)]
  · rename_i body
    rw [withReturns_cons (by decide), withReturns_cons (by decide)]
    simp only [commentExtent, blockCommentTail_withReturns, movedTo_cons (show '/' ≠ '\n' by decide),
      movedTo_cons (show '*' ≠ '\n' by decide)]
  · cases hc

/-! ### Strings and templates -/

/-- **A string** without line feeds takes the same characters. One with a line feed, behind a backslash, breaks off
behind the carriage return. -/
theorem stringTail_withReturns {quote : Char} (hn : quote ≠ '\n') (hr : quote ≠ '\r') (text : List Char) :
    if '\n' ∈ text.take (stringTail quote text).1 then
      (stringTail quote (withReturns text)).1 < movedTo text (stringTail quote text).1
    else stringTail quote (withReturns text) = (movedTo text (stringTail quote text).1, (stringTail quote text).2) := by
  fun_induction stringTail quote text with
  | case1 => rfl
  | case2 => rfl
  | case3 c text ih =>
    by_cases hc : c = '\n'
    · -- the line feed behind the carriage return ends the string
      subst hc
      have hstop : stringTail quote ('\n' :: withReturns text) = (0, false) := by
        rw [stringTail_cons (by decide), if_neg (Ne.symm hn), if_pos (by decide)]
      rw [if_pos (by simp), withReturns_cons (by decide), withReturns_feed, stringTail, hstop, movedTo_cons (by decide),
        movedTo_feed]
      omega
    · have hmem : '\n' ∈ ('\\' :: c :: text).take ((stringTail quote text).1 + 2) ↔
          '\n' ∈ text.take (stringTail quote text).1 := by simp [Ne.symm hc]
      rw [withReturns_cons (by decide), withReturns_cons hc, stringTail, movedTo_cons (by decide), movedTo_cons hc]
      simp only [hmem]
      split at ih
      · rename_i h
        rw [if_pos h]
        omega
      · rename_i h
        rw [if_neg h, ih]
  | case4 text h1 h2 =>
    rw [if_neg (by simpa using Ne.symm hn), withReturns_cons hn, stringTail_cons (ne_backslash h1 h2), if_pos rfl,
      movedTo_cons hn, movedTo_zero]
  | case5 c text h1 h2 hq hl =>
    rw [if_neg (by simp), movedTo_zero]
    by_cases hc : c = '\n'
    · subst hc
      rw [withReturns_feed, stringTail_cons (by decide), if_neg (Ne.symm hr), if_pos (by decide)]
    · rw [withReturns_cons hc, stringTail_cons (ne_backslash h1 h2), if_neg hq, if_pos hl]
  | case6 c text h1 h2 hq hl ih =>
    have hc : c ≠ '\n' := by
      rintro rfl
      exact hl rfl
    have hmem : '\n' ∈ (c :: text).take ((stringTail quote text).1 + 1) ↔
        '\n' ∈ text.take (stringTail quote text).1 := by simp [Ne.symm hc]
    rw [withReturns_cons hc, stringTail_cons (ne_backslash h1 h2), if_neg hq, if_neg hl, movedTo_cons hc]
    simp only [hmem]
    split at ih
    · rename_i h
      rw [if_pos h]
      omega
    · rename_i h
      rw [if_neg h, ih]

/-- **A template** takes the same characters: a backslash before a line feed takes the carriage return, and the line
feed behind it is one more character of the template. -/
theorem templateTail_withReturns (depth : Nat) (text : List Char) :
    templateTail depth (withReturns text) = (movedTo text (templateTail depth text).1, (templateTail depth text).2) := by
  fun_induction templateTail depth text with
  | case1 => rfl
  | case2 => rfl
  | case3 depth c text ih =>
    by_cases hc : c = '\n'
    · subst hc
      rw [withReturns_cons (by decide), withReturns_feed, templateTail, templateTail_break (.inl rfl), ih,
        movedTo_cons (by decide), movedTo_feed]
    · rw [withReturns_cons (by decide), withReturns_cons hc, templateTail, ih, movedTo_cons (by decide), movedTo_cons hc]
  | case4 depth text ih =>
    rw [withReturns_cons (by decide), withReturns_cons (by decide), templateTail, ih, movedTo_cons (by decide),
      movedTo_cons (by decide)]
  | case5 depth c text h1 h2 h3 hc =>
    obtain ⟨rfl, rfl⟩ := hc
    rw [withReturns_cons (by decide), templateTail_cons (by decide) (by simp), if_pos ⟨rfl, rfl⟩,
      movedTo_cons (by decide), movedTo_zero]
  | case6 depth c text h1 h2 h3 hc inner ih =>
    by_cases hfeed : c = '\n'
    · subst hfeed
      rw [withReturns_feed, templateTail_break (.inr rfl), templateTail_break (.inl rfl), movedTo_feed]
      have hsame : templateTail depth (withReturns text) = _ := ih
      rw [hsame]
    · have hopen : ¬ (c = '$' ∧ (withReturns text).head? = some '\x7b') := by
        rintro ⟨rfl, hhead⟩
        obtain ⟨rest, rfl⟩ := head?_of_withReturns (by decide) hhead
        exact h3 rest rfl rfl
      rw [withReturns_cons hfeed, templateTail_cons (ne_backslash h1 h2) hopen, if_neg hc, movedTo_cons hfeed]
      change ((templateTail inner (withReturns text)).1 + 1, (templateTail inner (withReturns text)).2) = _
      rw [ih]

/-! ### Lexemes -/

/-- The lexeme at a character that `rest` follows, and the lexeme there in the text with carriage returns: it takes
the same characters, unless it is a string that holds a line feed, which takes fewer. -/
structure Lexeme.Moves (rest : List Char) (short long : Lexeme) : Prop where
  kind : long.kind = short.kind
  whole : (short.kind = .string → '\n' ∉ rest.take short.extra) →
    long.extra = movedTo rest short.extra ∧ long.unterminated = short.unterminated
  broken : short.kind = .string → '\n' ∈ rest.take short.extra → long.extra < movedTo rest short.extra

namespace Lexeme

variable {c : Char} {rest : List Char}

theorem ne_of_not_blank (h : isBlank c = false) : c ≠ '\n' ∧ c ≠ '\r' := by
  constructor <;> (rintro rfl; cases h)

/-- A lexeme that is no string takes the same characters. -/
theorem Moves.of_not_string {short long : Lexeme} (hs : short.kind ≠ .string) (hkind : long.kind = short.kind)
    (hextra : long.extra = movedTo rest short.extra) (hunterminated : long.unterminated = short.unterminated) :
    Moves rest short long :=
  ⟨hkind, fun _ => ⟨hextra, hunterminated⟩, fun h => absurd h hs⟩

theorem moves_comment (hc : c ≠ '\n') (hr : '\r' ∉ c :: rest) (h : startsComment (c :: rest) = true) :
    Moves rest (read true c rest) (read true c (withReturns rest)) := by
  have hextent := commentExtent_withReturns hr h
  have hlong : startsComment (c :: withReturns rest) = true := by
    rw [← withReturns_cons hc, startsComment_withReturns, h]
  obtain ⟨n, hn⟩ : ∃ n, (commentExtent (c :: rest)).1 = n + 1 :=
    ⟨_, (Nat.sub_add_cancel (Nat.le_of_succ_le (two_le_commentExtent h))).symm⟩
  rw [withReturns_cons hc, hn, movedTo_cons hc] at hextent
  rw [read_comment h, read_comment hlong, hextent, hn]
  exact .of_not_string (by simp) rfl rfl rfl

theorem moves_string (hc : c = '\x27' ∨ c = '\x22') :
    Moves rest (read true c rest) (read true c (withReturns rest)) := by
  have hne : c ≠ '\n' ∧ c ≠ '\r' := by rcases hc with rfl | rfl <;> decide
  have htail := stringTail_withReturns hne.1 hne.2 rest
  rw [read_string hc, read_string hc]
  split at htail
  · rename_i hmem
    exact ⟨rfl, fun h => absurd hmem (h rfl), fun _ _ => htail⟩
  · rename_i hmem
    rw [htail]
    exact ⟨rfl, fun _ => ⟨rfl, rfl⟩, fun _ h => absurd h hmem⟩

theorem moves_template : Moves rest (read true '\x60' rest) (read true '\x60' (withReturns rest)) := by
  rw [read_template, read_template, templateTail_withReturns]
  exact .of_not_string (by simp) rfl rfl rfl

/-- What looks ahead no further than the end of the line is not moved. -/
theorem moves_plain (hr : '\r' ∉ rest) (hc : startsComment (c :: rest) = false) (hq : ¬ (c = '\x27' ∨ c = '\x22'))
    (hb : c ≠ '\x60') : Moves rest (read true c rest) (read true c (withReturns rest)) := by
  obtain ⟨line, tail, rfl, hline, ht, ht'⟩ : ∃ line tail, rest = line ++ tail ∧ '\n' ∉ line ∧ StartsBreak tail ∧
      StartsBreak (withReturns tail) := by
    obtain ⟨line, hline, rfl | ⟨more, rfl⟩⟩ := line_or rest
    · exact ⟨rest, [], by simp, hline, by simp [StartsBreak], by simp [StartsBreak, withReturns_nil]⟩
    · exact ⟨line, '\n' :: more, rfl, hline, by simp [StartsBreak], by simp [StartsBreak, withReturns_feed]⟩
  rw [startsComment_append ht] at hc
  obtain ⟨hshort, hle, -⟩ := read_plain ht hc hq hb
  have hlong := (read_plain ht' hc hq hb).1
  rw [withReturns_append, withReturns_of_not_mem hline, hlong, hshort]
  have htake : (line ++ tail).take (read true c line).extra = line.take (read true c line).extra :=
    List.take_append_of_le_length hle
  have hnot : '\n' ∉ (line ++ tail).take (read true c line).extra := by
    rw [htake]
    exact fun h => hline (List.mem_of_mem_take h)
  have hmoved := movedTo_of_not_mem (Nat.le_trans hle (by simp)) hnot
  exact ⟨rfl, fun _ => ⟨hmoved.symm, rfl⟩, fun _ h => absurd h hnot⟩

/-- **A lexeme moves** to the text with carriage returns. -/
theorem moves_read {keepComments : Bool} (hblank : isBlank c = false) (hr : '\r' ∉ rest)
    (hcomment : keepComments = false → startsComment (c :: rest) = false) :
    Moves rest (read keepComments c rest) (read keepComments c (withReturns rest)) := by
  obtain ⟨hn, hret⟩ := ne_of_not_blank hblank
  have hsame : ∀ x, startsComment (c :: x) = startsComment (c :: rest) → read keepComments c x = read true c x := by
    intro x hx
    cases keepComments with
    | true => rfl
    | false => exact (read_eq_of_not_comment (hx.trans (hcomment rfl))).symm
  rw [hsame rest rfl, hsame (withReturns rest) (by rw [← withReturns_cons hn, startsComment_withReturns])]
  cases hc : startsComment (c :: rest) with
  | true => exact moves_comment hn (by simp [hr, Ne.symm hret]) hc
  | false =>
    by_cases hq : c = '\x27' ∨ c = '\x22'
    · exact moves_string hq
    · by_cases hb : c = '\x60'
      · subst hb
        exact moves_template
      · exact moves_plain hr hc hq hb

end Lexeme

/-! ### Scanning -/

/-- What is skipped moves to the text with carriage returns. -/
theorem triviaLength_withReturns (keepComments : Bool) (text : List Char) (hr : '\r' ∉ text) :
    triviaLength keepComments (withReturns text) = movedTo text (triviaLength keepComments text) := by
  have hblanks : ∀ text : List Char, ((withReturns text).takeWhile isBlank).length =
      movedTo text (text.takeWhile isBlank).length := fun text => by
    rw [takeWhile_withReturns (by decide), movedTo, take_takeWhile_isBlank]
  fun_induction triviaLength keepComments text with
  | case1 text blanks h skipped ih =>
    have hdrop : '\r' ∉ text.drop blanks := fun hm => hr (List.mem_of_mem_drop hm)
    have hextent := commentExtent_withReturns hdrop (Bool.and_eq_true_iff.1 h).2
    have hskipped : movedTo text blanks + movedTo (text.drop blanks) (commentExtent (text.drop blanks)).1 =
        movedTo text skipped := (movedTo_add text blanks _).symm
    rw [triviaLength]
    simp only [hblanks, drop_movedTo, startsComment_withReturns, blanks] at h hextent hskipped ⊢
    rw [dif_pos h, hextent, hskipped, drop_movedTo, ih fun hm => hr (List.mem_of_mem_drop hm), movedTo_add text skipped]
  | case2 text blanks h =>
    rw [triviaLength]
    simp only [hblanks, drop_movedTo, startsComment_withReturns]
    rw [dif_neg h]

/-- What is skipped ends before a character that is no blank, and that begins no comment where those are skipped. -/
theorem drop_triviaLength (keepComments : Bool) (text : List Char) {c : Char} {rest : List Char}
    (h : text.drop (triviaLength keepComments text) = c :: rest) :
    isBlank c = false ∧ (keepComments = false → startsComment (c :: rest) = false) := by
  fun_induction triviaLength keepComments text with
  | case1 text blanks hc skipped ih =>
    rw [← List.drop_drop] at h
    exact ih h
  | case2 text blanks hc =>
    rw [h] at hc
    refine ⟨?_, fun hk => by simpa [hk] using hc⟩
    have hdrop : text.dropWhile isBlank = c :: rest := by
      rw [← h]
      exact List.append_cancel_left (List.takeWhile_append_dropWhile.trans
        (List.prefix_iff_eq_append.1 (List.takeWhile_prefix _)).symm)
    have hfirst := List.head?_dropWhile_not isBlank text
    rw [hdrop] at hfirst
    simpa using hfirst

/-- A token of a text and one of the text with carriage returns that differ in their place only, and in the carriage
returns. -/
structure Token.Matches (t t' : Token) : Prop where
  kind : t'.kind = t.kind
  afterLineBreak : t'.afterLineBreak = t.afterLineBreak
  unterminated : t'.unterminated = t.unterminated
  text : t'.text.toList = withReturns t.text.toList

theorem scanFrom_of_nil {keepComments : Bool} (offset : Nat) {text : List Char}
    (h : text.drop (triviaLength keepComments text) = []) :
    scanFrom keepComments offset text =
      let skipped := text.take (triviaLength keepComments text)
      [{ Token.endOfInput (offset + unitLength skipped) with afterLineBreak := skipped.any isLineTerminator }] := by
  rw [scanFrom]
  split
  · rfl
  · rename_i heq
    cases h.symm.trans heq

theorem scanFrom_of_cons {keepComments : Bool} (offset : Nat) {text : List Char} {c : Char} {rest : List Char}
    (h : text.drop (triviaLength keepComments text) = c :: rest) :
    scanFrom keepComments offset text =
      let skipped := text.take (triviaLength keepComments text)
      let lexeme := Lexeme.read keepComments c rest
      let token := lexeme.toToken (offset + unitLength skipped) (c :: rest.take lexeme.extra)
        (skipped.any isLineTerminator)
      token :: scanFrom keepComments token.stop (rest.drop lexeme.extra) := by
  rw [scanFrom]
  split
  · rename_i heq
    cases h.symm.trans heq
  · rename_i heq
    cases h.symm.trans heq
    rfl

/-- A token matches where its lexeme is moved as a whole, so where it is no string with a line feed. -/
theorem matches_toToken_iff {short long : Lexeme} {c : Char} {rest : List Char} (h : Lexeme.Moves rest short long)
    (hc : c ≠ '\n') (start start' : Nat) (broken : Bool) :
    Token.Matches (short.toToken start (c :: rest.take short.extra) broken)
        (long.toToken start' (c :: (withReturns rest).take long.extra) broken) ↔
      (short.kind = .string → '\n' ∉ rest.take short.extra) := by
  constructor
  · rintro hmatches hs hmem
    have hlt := h.broken hs hmem
    have htext := congrArg List.length hmatches.text
    simp only [Lexeme.toToken, String.toList_ofList, withReturns_cons hc, List.length_cons, List.length_take] at htext
    have hmoved : (withReturns (rest.take short.extra)).length = movedTo rest short.extra := rfl
    omega
  · intro hs
    obtain ⟨hextra, hunterminated⟩ := h.whole hs
    refine ⟨h.kind, ?_, hunterminated, ?_⟩
    · simp only [Lexeme.toToken, h.kind, hextra, take_movedTo, List.any_cons,
        any_withReturns (p := isLineTerminator) (.inl (by decide))]
    · simp only [Lexeme.toToken, String.toList_ofList, withReturns_cons hc, hextra, take_movedTo]

/-- **One scan.** The tokens of a text match those of the text with carriage returns, one by one, exactly if no string
among them holds a line feed. -/
theorem matches_scanFrom_iff (keepComments : Bool) (offset offset' : Nat) (text : List Char) (hr : '\r' ∉ text) :
    List.Forall₂ Token.Matches (scanFrom keepComments offset text) (scanFrom keepComments offset' (withReturns text)) ↔
      OneLineStrings (scanFrom keepComments offset text) := by
  have hskip : ∀ text : List Char, '\r' ∉ text →
      ((withReturns text).take (triviaLength keepComments (withReturns text))).any isLineTerminator =
          (text.take (triviaLength keepComments text)).any isLineTerminator ∧
        (withReturns text).drop (triviaLength keepComments (withReturns text)) =
          withReturns (text.drop (triviaLength keepComments text)) := by
    intro text hr
    rw [triviaLength_withReturns keepComments text hr, take_movedTo, drop_movedTo]
    exact ⟨any_withReturns (.inl (by decide)) _, rfl⟩
  fun_induction scanFrom keepComments offset text generalizing offset' with
  | case1 offset text skipped start broken h =>
    obtain ⟨hbroken, hdrop⟩ := hskip text hr
    rw [h] at hdrop
    rw [scanFrom_of_nil offset' hdrop]
    exact iff_of_true (.cons ⟨rfl, hbroken, rfl, rfl⟩ .nil) (by simp [OneLineStrings, Token.endOfInput])
  | case2 offset text skipped start broken c rest h lexeme token ih =>
    obtain ⟨hbroken, hdrop⟩ := hskip text hr
    obtain ⟨hblank, hcomment⟩ := drop_triviaLength keepComments text h
    have hc := (Lexeme.ne_of_not_blank hblank).1
    have hrest : '\r' ∉ rest := fun hm => hr (List.mem_of_mem_drop (h ▸ List.mem_cons_of_mem c hm))
    rw [h, withReturns_cons hc] at hdrop
    have hmoves := Lexeme.moves_read hblank hrest hcomment
    have hstrings : OneLineStrings (token :: scanFrom keepComments token.stop (rest.drop lexeme.extra)) ↔
        (lexeme.kind = .string → '\n' ∉ rest.take lexeme.extra) ∧
          OneLineStrings (scanFrom keepComments token.stop (rest.drop lexeme.extra)) := by
      simp [OneLineStrings, token, Lexeme.toToken, Ne.symm hc]
    rw [scanFrom_of_cons offset' hdrop, List.forall₂_cons, hbroken, hstrings, matches_toToken_iff hmoves hc]
    refine and_congr_right fun hs => ?_
    rw [(hmoves.whole hs).1, drop_movedTo]
    exact ih _ fun hm => hrest (List.mem_of_mem_drop hm)

/-- **Scanning is invariant under the line ending** but for strings that go on behind the end of a line: with a carriage
return before every line feed a text has as many tokens, of the same kinds and with the same flags, and the same texts
with a carriage return before every line feed, exactly if no string of it holds a line feed. -/
theorem tokenize_withReturns_iff (text : List Char) (hr : '\r' ∉ text) :
    List.Forall₂ Token.Matches (tokenize text) (tokenize (withReturns text)) ↔ OneLineStrings (tokenize text) :=
  matches_scanFrom_iff false 0 0 text hr

/-- Blanks, comments of both kinds, a template with a line feed behind a backslash, and a string on one line. -/
theorem tokenize_withReturns_of_lines :
    '\r' ∉ "a /* b\n*/ `c\\\nd` // e\n\n'f'".toList ∧
      List.Forall₂ Token.Matches (tokenize "a /* b\n*/ `c\\\nd` // e\n\n'f'".toList)
        (tokenize (withReturns "a /* b\n*/ `c\\\nd` // e\n\n'f'".toList)) := by
  have hr : '\r' ∉ "a /* b\n*/ `c\\\nd` // e\n\n'f'".toList := by decide +kernel
  exact ⟨hr, (tokenize_withReturns_iff _ hr).2 (by decide +kernel)⟩

/-- A string that goes on behind the end of a line breaks off behind the carriage return, and its closing quote
begins another one. -/
theorem not_tokenize_withReturns_continued :
    '\r' ∉ ['\x27', '\\', '\n', '\x27'] ∧
      ¬ List.Forall₂ Token.Matches (tokenize ['\x27', '\\', '\n', '\x27'])
        (tokenize (withReturns ['\x27', '\\', '\n', '\x27'])) := by
  refine ⟨by decide, fun h => ?_⟩
  have hshort : (tokenize ['\x27', '\\', '\n', '\x27']).length = 2 := by decide +kernel
  have hlong : (tokenize (withReturns ['\x27', '\\', '\n', '\x27'])).length = 3 := by decide +kernel
  have hlength := h.length_eq
  omega

end Typeahead
