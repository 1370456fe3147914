/-
# Where the value of a string ends

The value of a string is read off its text alone: the closing quote is taken to be there if the last character is
the opening one. The scan knows better. A string that it leaves open at the end of a line may end in its own quote
behind a backslash, and that quote belongs to the value. The two agree on every other string.

That the quote is missed there, not only looked for in the wrong place, shows in the length of the value: whatever
escape the backslash falls into, one character more is read with the quote than without it
(`length_resolveEscapes_quote`).

Key definitions: `Token.literalBody`, `Token.EndsEscaped`.
Key theorems: `stringTail_closed`, `stringTail_open`, `string_of_mem_scanFrom`, `length_resolveEscapes_quote`,
`unescape_eq_literalBody_iff`.
-/
import Typeahead.Proofs.StringLiteral.Written

namespace Typeahead

open Text

/-- What a string holds: its text without the opening quote and, if it is closed, without the last character. -/
def Token.literalBody (t : Token) : List Char :=
  if t.unterminated then t.text.toList.tail else t.text.toList.tail.dropLast

/-- A string that is never closed and ends in its own quote, behind a backslash. -/
def Token.EndsEscaped (t : Token) : Prop :=
  t.unterminated = true ∧ ∃ quote body, t.text.toList = quote :: (body ++ ['\\', quote])

/-! ### The last character of a string -/

section Tail

variable {quote : Char}

/-- A string that is closed ends in its quote. -/
theorem stringTail_closed (text : List Char) (h : (stringTail quote text).2 = true) :
    ∃ body, text.take (stringTail quote text).1 = body ++ [quote] := by
  fun_induction stringTail quote text with
  | case1 => cases h
  | case2 => cases h
  | case3 c text ih =>
    obtain ⟨body, hbody⟩ := ih h
    exact ⟨'\\' :: c :: body, by simp [hbody]⟩
  | case4 => exact ⟨[], rfl⟩
  | case5 => cases h
  | case6 c text _ _ _ _ ih =>
    obtain ⟨body, hbody⟩ := ih h
    exact ⟨c :: body, by simp [hbody]⟩

/-- If a string that is not closed ends in its quote, that stands behind a backslash. -/
theorem stringTail_open (hq : quote ≠ '\\') (text : List Char) (h : (stringTail quote text).2 = false) :
    ∀ {body}, text.take (stringTail quote text).1 = body ++ [quote] → ∃ front, body = front ++ ['\\'] := by
  fun_induction stringTail quote text with
  | case1 => simp
  | case2 =>
    intro body hbody
    have hlast : ['\\'] = body ++ [quote] := hbody
    exact absurd (by simpa using congrArg List.getLast? hlast) hq.symm
  | case3 c text ih =>
    intro body hbody
    simp only [List.take_succ_cons] at hbody
    rcases body with _ | ⟨b, _ | ⟨d, body⟩⟩
    · cases hbody
    · -- the backslash takes the quote
      exact ⟨[], by rw [(List.cons.inj hbody).1]; rfl⟩
    · obtain ⟨rfl, hbehind⟩ := List.cons.inj hbody
      obtain ⟨rfl, htaken⟩ := List.cons.inj hbehind
      obtain ⟨front, rfl⟩ := ih h htaken
      exact ⟨'\\' :: c :: front, rfl⟩
  | case4 => cases h
  | case5 => simp
  | case6 c text _ _ hc _ ih =>
    intro body hbody
    simp only [List.take_succ_cons] at hbody
    cases body with
    | nil => exact absurd (List.cons.inj hbody).1 hc
    | cons d body =>
      obtain ⟨rfl, htail⟩ := List.cons.inj hbody
      obtain ⟨front, rfl⟩ := ih h htail
      exact ⟨c :: front, rfl⟩

end Tail

/-! ### The strings of a scan -/

theorem ofWord_ne_string (word : String) : TokenKind.ofWord word ≠ .string := by
  unfold TokenKind.ofWord TokenKind.keyword?
  split
  · simp
  · split <;> simp

/-- A lexeme that is a string begins with a quote and reaches as far as the search for the closing one. -/
theorem Lexeme.read_of_string {keepComments : Bool} {c : Char} {rest : List Char}
    (h : (read keepComments c rest).kind = .string) :
    (c = '\x27' ∨ c = '\x22') ∧
      read keepComments c rest = ⟨.string, (stringTail c rest).1, !(stringTail c rest).2⟩ := by
  by_cases hcomment : (keepComments && startsComment (c :: rest)) = true
  · simp [read, hcomment] at h
  · by_cases hc : c = '\x27' ∨ c = '\x22'
    · exact ⟨hc, by simp [read, hcomment, hc]⟩
    · simp only [read, hcomment, hc, if_false] at h
      repeat' split at h
      all_goals first | exact absurd h (ofWord_ne_string _) | cases h

/-- **The strings of a scan** are what the search for the closing quote takes. -/
theorem string_of_mem_scanFrom {keepComments : Bool} {offset : Nat} {text : List Char} {t : Token}
    (ht : t ∈ scanFrom keepComments offset text) (hs : t.kind = .string) :
    ∃ quote rest, (quote = '\x27' ∨ quote = '\x22') ∧
      t.text.toList = quote :: rest.take (stringTail quote rest).1 ∧
      t.unterminated = !(stringTail quote rest).2 := by
  fun_induction scanFrom keepComments offset text with
  | case1 offset text skipped start broken h =>
    obtain rfl := List.mem_singleton.1 ht
    cases hs
  | case2 offset text skipped start broken c rest h lexeme token ih =>
    rcases List.mem_cons.1 ht with rfl | ht
    · obtain ⟨hc, hread⟩ := Lexeme.read_of_string hs
      refine ⟨c, rest, hc, ?_, ?_⟩
      · simp [token, Lexeme.toToken, lexeme, hread]
      · simp [token, Lexeme.toToken, lexeme, hread]
    · exact ih ht

/-! ### A backslash and a quote at the end -/

theorem hexNumberFrom?_eq_none : ∀ (number : Nat) {digits : List Char}, '\\' ∈ digits →
    hexNumberFrom? number digits = none
  | _, [], h => by cases h
  | number, c :: digits, h => by
    cases hc : hexDigit? c with
    | none => simp [hexNumberFrom?, hc]
    | some value =>
      have hmem : '\\' ∈ digits := by
        rcases List.mem_cons.1 h with rfl | h
        · cases hc
        · exact h
      simpa [hexNumberFrom?, hc] using hexNumberFrom?_eq_none _ hmem

/-- A backslash among the digits makes them stand for themselves. -/
theorem hexEscape_of_backslash {digits : List Char} (h : '\\' ∈ digits) : hexEscape digits = digits := by
  have hnone : hexNumber? digits = none := by
    unfold hexNumber?
    split
    · have hmem : '\\' ∈ _ := (List.mem_cons.1 h).resolve_left (by decide)
      simp [hexNumberFrom?_eq_none 0 hmem]
    · simp [hexNumberFrom?_eq_none 0 h]
  simp [hexEscape, hnone]

/-- A text that ends before the digits of an escape do, and what comes behind it. -/
theorem length_hexEscape_short {quote : Char} (hq : quote ≠ '\\') {count : Nat} {text : List Char}
    (h : text.length < count) :
    (hexEscape ((text ++ ['\\', quote]).take count) ++ resolveEscapes ((text ++ ['\\', quote]).drop count)).length =
      (hexEscape ((text ++ ['\\']).take count) ++ resolveEscapes ((text ++ ['\\']).drop count)).length + 1 := by
  have htake : ∀ rest, hexEscape ((text ++ '\\' :: rest).take count) = (text ++ '\\' :: rest).take count := by
    intro rest
    obtain ⟨more, rfl⟩ := Nat.exists_eq_add_of_lt h
    apply hexEscape_of_backslash
    rw [Nat.add_assoc, List.take_length_add_append]
    simp
  have hnone : (text ++ ['\\']).drop count = [] := List.drop_eq_nil_of_le (by simp; omega)
  have hrest : (resolveEscapes ((text ++ ['\\', quote]).drop count)).length =
      ((text ++ ['\\', quote]).drop count).length := by
    rcases Nat.lt_or_ge (text.length + 1) count with hlt | hge
    · rw [List.drop_eq_nil_of_le (by simp; omega)]
      simp [resolveEscapes]
    · obtain rfl : count = text.length + 1 := by omega
      have hdrop : (text ++ ['\\', quote]).drop (text.length + 1) = [quote] := by simp
      rw [hdrop, resolveEscapes_cons hq]
      simp [resolveEscapes]
  rw [htake, htake, hnone, List.length_append, hrest]
  simp only [resolveEscapes, List.length_append, List.length_take, List.length_drop, List.length_cons,
    List.length_nil]
  omega

/-- An escape with `count` digits: if they are all in the text, what they leave of it is read on. -/
theorem length_hexEscape_quote {quote : Char} (hq : quote ≠ '\\') (count : Nat) (text : List Char)
    (h : (resolveEscapes (text.drop count ++ ['\\', quote])).length =
      (resolveEscapes (text.drop count ++ ['\\'])).length + 1) :
    (hexEscape ((text ++ ['\\', quote]).take count) ++ resolveEscapes ((text ++ ['\\', quote]).drop count)).length =
      (hexEscape ((text ++ ['\\']).take count) ++ resolveEscapes ((text ++ ['\\']).drop count)).length + 1 := by
  rcases Nat.lt_or_ge text.length count with hlt | hge
  · exact length_hexEscape_short hq hlt
  · rw [List.take_append_of_le_length hge, List.drop_append_of_le_length hge, List.take_append_of_le_length hge,
      List.drop_append_of_le_length hge, List.length_append, List.length_append, h, Nat.add_assoc]

theorem head?_append_backslash {c : Char} (hc : c ≠ '\\') {text : List Char} (h : ∀ rest, text ≠ c :: rest)
    (rest : List Char) : (text ++ '\\' :: rest).head? ≠ some c := by
  cases text with
  | nil => simpa using hc.symm
  | cons d text =>
    intro hd
    exact h text (by rw [← Option.some.inj hd])

/-- **One character more** is read of a text that ends in a backslash and a quote than without the quote. -/
theorem length_resolveEscapes_quote {quote : Char} (hq : quote = '\x27' ∨ quote = '\x22') (front : List Char) :
    (resolveEscapes (front ++ ['\\', quote])).length = (resolveEscapes (front ++ ['\\'])).length + 1 := by
  have hb : quote ≠ '\\' := by rcases hq with rfl | rfl <;> decide
  have hother : quote ∉ ['x', 'u', '\n', '\r'] := by rcases hq with rfl | rfl <;> decide
  fun_induction resolveEscapes front with
  | case1 => simp [resolveEscapes_backslash hother, resolveEscapes]
  | case2 =>
    have hself : '\\' ∉ ['x', 'u', '\n', '\r'] := by decide
    simp [resolveEscapes_backslash hself, resolveEscapes_cons hb, resolveEscapes]
  | case3 text ih =>
    simp only [List.cons_append, resolveEscapes]
    exact length_hexEscape_quote hb 2 text ih
  | case4 text digits ih =>
    simp only [List.cons_append, resolveEscapes]
    have htail : ['\\', quote].takeWhile (· != '}') = ['\\', quote] ∧
        ['\\'].takeWhile (· != '}') = ['\\'] := by rcases hq with rfl | rfl <;> decide
    rw [List.takeWhile_append, List.takeWhile_append, htail.1, htail.2]
    split
    · -- no brace closes the digits, so all that follows is read as digits, and stands for itself
      rw [hexEscape_of_backslash (by simp), hexEscape_of_backslash (by simp), List.drop_eq_nil_of_le (by simp),
        List.drop_eq_nil_of_le (by simp)]
      simp [resolveEscapes]
    · rename_i hclosed
      have hle : digits.length + 1 ≤ text.length :=
        Nat.lt_of_le_of_ne (List.takeWhile_sublist _).length_le hclosed
      rw [List.drop_append_of_le_length hle, List.drop_append_of_le_length hle, List.length_append,
        List.length_append, ih, Nat.add_assoc]
  | case5 text h ih =>
    have hhead := head?_append_backslash (by decide) h
    simp only [List.cons_append, resolveEscapes_unit (hhead _)]
    exact length_hexEscape_quote hb 4 text ih
  | case6 text ih =>
    simp only [List.cons_append, resolveEscapes]
    exact ih
  | case7 text ih =>
    simp only [List.cons_append, resolveEscapes]
    exact ih
  | case8 text h ih =>
    have hhead := head?_append_backslash (by decide) h
    simp only [List.cons_append, resolveEscapes_return (hhead _)]
    exact ih
  | case9 c text h1 h2 h3 h4 h5 h6 ih =>
    have hc : c ∉ ['x', 'u', '\n', '\r'] := by
      simp only [List.mem_cons, List.not_mem_nil, or_false, not_or]
      exact ⟨h1, h3, h4, h6⟩
    simp only [List.cons_append, resolveEscapes_backslash hc, List.length_cons, ih]
  | case10 c text h1 h2 h3 h4 h5 h6 h7 h8 ih =>
    have hc : c ≠ '\\' := ne_backslash h1 h8
    simp only [List.cons_append, resolveEscapes_cons hc, List.length_cons, ih]

/-- **The value of a string is read up to its closing quote**, unless it has none and ends in a quote behind a
backslash: then that quote is missed. -/
theorem unescape_eq_literalBody_iff {keepComments : Bool} {text : List Char} {t : Token}
    (ht : t ∈ scanFrom keepComments 0 text) (hs : t.kind = .string) :
    unescape t.text.toList = resolveEscapes t.literalBody ↔ ¬ t.EndsEscaped := by
  obtain ⟨quote, rest, hq, htext, hopen⟩ := string_of_mem_scanFrom ht hs
  have hb : quote ≠ '\\' := by rcases hq with rfl | rfl <;> decide
  cases hclosed : (stringTail quote rest).2 with
  | true =>
    obtain ⟨body, hbody⟩ := stringTail_closed rest hclosed
    rw [hclosed] at hopen
    refine iff_of_true ?_ fun h => by cases hopen.symm.trans h.1
    rw [unescape, Token.literalBody, hopen, htext, hbody]
    simp [stringBody]
  | false =>
    rw [hclosed] at hopen
    rw [unescape, Token.literalBody, hopen, htext]
    by_cases hlast : (rest.take (stringTail quote rest).1).getLast? = some quote
    · obtain ⟨body, hbody⟩ := List.getLast?_eq_some_iff.1 hlast
      obtain ⟨front, rfl⟩ := stringTail_open hb rest hclosed hbody
      refine iff_of_false ?_ (not_not.2 ⟨hopen, quote, front, by rw [htext, hbody]; simp⟩)
      intro heq
      have hlength := length_resolveEscapes_quote hq front
      have hbody' : stringBody (quote :: (front ++ ['\\'] ++ [quote])) = front ++ ['\\'] := by simp [stringBody]
      rw [hbody, hbody'] at heq
      rw [heq] at hlength
      simp at hlength
    · refine iff_of_true (by simp [stringBody, hlast]) ?_
      rintro ⟨-, other, body, hother⟩
      rw [htext] at hother
      obtain ⟨rfl, hbody⟩ := List.cons.inj hother
      exact hlast (by simp [hbody])

/-- A string with an escaped quote in it that is open at the end of its line. -/
theorem unescape_eq_literalBody_left_open :
    let t : Token := ⟨.string, "'a\\'b", 0, 5, false, true⟩
    t ∈ scanFrom false 0 "'a\\'b\n'".toList ∧ t.kind = .string ∧
      (unescape t.text.toList = resolveEscapes t.literalBody ↔ ¬ t.EndsEscaped) := by
  have ht : (⟨.string, "'a\\'b", 0, 5, false, true⟩ : Token) ∈ scanFrom false 0 "'a\\'b\n'".toList := by
    decide +kernel
  exact ⟨ht, rfl, unescape_eq_literalBody_iff ht rfl⟩

/-- The quote that ends an open string behind a backslash is not read. -/
theorem not_unescape_eq_literalBody :
    ¬ ∀ t ∈ scanFrom false 0 "'abc\\'".toList, t.kind = .string →
      unescape t.text.toList = resolveEscapes t.literalBody := by
  intro h
  have hvalue := h ⟨.string, "'abc\\'", 0, 6, false, true⟩ (by decide +kernel) rfl
  revert hvalue
  decide +kernel

end Typeahead
