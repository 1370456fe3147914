/-
# Lexemes at the end of a line

What a lexeme looks ahead for never lies across the end of a line. So a text that goes on
with a line end is cut into the same lexemes as the line alone, but for the one that the line
leaves open: a block comment, a template, or a string whose last character is a backslash,
which takes the first character behind the line with it.

Key definitions: `StartsBreak`, `LineEnd`, `LineState.open?`, `Lexeme.GoesOn`.
Key theorems: `numberLength_append`, `stringTail_append`, `templateTail_append`,
`Lexeme.read_append`.
-/
import Mathlib.Tactic.Common
import Typeahead.Token.Highlight

namespace Typeahead

open Text

/-- If the text is not empty, it starts with a line feed or a carriage return. -/
def StartsBreak (tail : List Char) : Prop := ∀ c ∈ tail.head?, c = '\n' ∨ c = '\r'

/-- What ends a line without its carriage return, and the text of the lines after it. -/
inductive LineEnd : List Char → Option (List Char) → Prop where
  | last : LineEnd [] none
  | lastReturn : LineEnd ['\r'] none
  | feed (more : List Char) : LineEnd ['\n'] (some more)
  | returnFeed (more : List Char) : LineEnd ['\r', '\n'] (some more)

theorem LineEnd.startsBreak {gap : List Char} {next : Option (List Char)} (h : LineEnd gap next) :
    StartsBreak (gap ++ next.getD []) := by
  cases h <;> simp [StartsBreak]

/-! ### Numbers, names and punctuators -/

section Ahead

variable {tail : List Char} (ht : StartsBreak tail)
include ht

theorem takeWhile_append_break {p : Char → Bool} (hn : p '\n' = false) (hr : p '\r' = false) :
    ∀ x : List Char, (x ++ tail).takeWhile p = x.takeWhile p
  | [] => by
    cases tail with
    | nil => rfl
    | cons c tail =>
      rcases ht c rfl with rfl | rfl
      · simp [hn]
      · simp [hr]
  | c :: x => by
    rw [List.cons_append, List.takeWhile_cons, List.takeWhile_cons, takeWhile_append_break hn hr x]

theorem any_head?_append_break {p : Char → Bool} (hn : p '\n' = false) (hr : p '\r' = false) :
    ∀ x : List Char, (x ++ tail).head?.any p = x.head?.any p
  | [] => by
    cases tail with
    | nil => rfl
    | cons c tail =>
      rcases ht c rfl with rfl | rfl
      · simp [hn]
      · simp [hr]
  | _ :: _ => rfl

theorem isPrefixOf_append_break : ∀ p x : List Char, '\n' ∉ p → '\r' ∉ p →
    p.isPrefixOf (x ++ tail) = p.isPrefixOf x
  | [], _, _, _ => by simp
  | d :: p, [], hn, hr => by
    cases tail with
    | nil => rfl
    | cons c tail =>
      have hd : d ≠ c := by
        rintro rfl
        rcases ht d rfl with rfl | rfl
        · exact hn List.mem_cons_self
        · exact hr List.mem_cons_self
      simp [List.isPrefixOf, hd]
  | d :: p, c :: x, hn, hr => by
    have ih := isPrefixOf_append_break p x (fun h => hn (List.mem_cons_of_mem _ h))
      fun h => hr (List.mem_cons_of_mem _ h)
    simp [List.isPrefixOf, ih]

theorem digitRun_append (isDigit : Char → Bool) (hn : isDigit '\n' = false)
    (hr : isDigit '\r' = false) (x : List Char) : digitRun isDigit (x ++ tail) = digitRun isDigit x := by
  rw [digitRun, digitRun, takeWhile_append_break ht] <;> simp [hn, hr]

theorem fractionLength_append (x : List Char) : fractionLength (x ++ tail) = fractionLength x := by
  rcases x with _ | ⟨c, x⟩
  · rcases tail with _ | ⟨d, tail⟩
    · rfl
    · rcases ht d rfl with rfl | rfl <;> rfl
  · have hrun := digitRun_append ht Char.isDigit (by decide) (by decide) x
    by_cases hc : c = '.'
    · subst hc
      simp only [List.cons_append, fractionLength, hrun]
    · simp [fractionLength, hc]

theorem bigSuffixLength_append (x : List Char) : bigSuffixLength (x ++ tail) = bigSuffixLength x := by
  rcases x with _ | ⟨c, x⟩
  · rcases tail with _ | ⟨d, tail⟩
    · rfl
    · rcases ht d rfl with rfl | rfl <;> rfl
  · by_cases hc : c = 'n'
    · subst hc
      rfl
    · simp [bigSuffixLength, hc]

theorem exponentLength_append (x : List Char) : exponentLength (x ++ tail) = exponentLength x := by
  rcases tail with _ | ⟨c, tail⟩
  · rw [List.append_nil]
  have hc : c.isDigit = false ∧ c ≠ 'e' ∧ c ≠ 'E' ∧ c ≠ '+' ∧ c ≠ '-' := by
    rcases ht c rfl with rfl | rfl <;> decide
  rcases x with _ | ⟨e, _ | ⟨sign, _ | ⟨digit, x⟩⟩⟩
  · rcases tail with _ | ⟨d, _ | ⟨f, tail⟩⟩ <;> simp [exponentLength, hc]
  · rcases tail with _ | ⟨d, tail⟩ <;> simp [exponentLength, hc]
  · have hrun := digitRun_append ht Char.isDigit (by decide) (by decide) [sign]
    simp only [List.cons_append, List.nil_append] at hrun
    simp only [List.cons_append, List.nil_append, exponentLength, hc, Bool.false_eq_true, ↓reduceIte,
      hrun]
    by_cases hs : sign = '+' ∨ sign = '-'
    · rcases hs with rfl | rfl <;> simp
    · by_cases hd : sign.isDigit = true <;> simp [hs, hd, digitRun]
  · have h1 := digitRun_append ht Char.isDigit (by decide) (by decide) (digit :: x)
    have h2 := digitRun_append ht Char.isDigit (by decide) (by decide) (sign :: digit :: x)
    simp only [List.cons_append] at h1 h2
    simp only [List.cons_append, exponentLength, h1, h2]

end Ahead

theorem digitRun_le (isDigit : Char → Bool) (x : List Char) : digitRun isDigit x ≤ x.length :=
  (List.takeWhile_sublist _).length_le

theorem fractionLength_le (x : List Char) : fractionLength x ≤ x.length := by
  unfold fractionLength
  split
  · have := digitRun_le Char.isDigit ‹_›
    simp only [List.length_cons]
    omega
  · exact Nat.zero_le _

theorem exponentLength_le (x : List Char) : exponentLength x ≤ x.length := by
  unfold exponentLength
  split
  · rename_i e sign digit x
    have h1 := digitRun_le Char.isDigit (digit :: x)
    have h2 := digitRun_le Char.isDigit (sign :: digit :: x)
    simp only [List.length_cons] at h1 h2 ⊢
    repeat' split
    all_goals omega
  · split <;> simp
  · exact Nat.zero_le _

theorem bigSuffixLength_le (x : List Char) : bigSuffixLength x ≤ x.length := by
  unfold bigSuffixLength
  split <;> simp

theorem decimalLength_le (x : List Char) : decimalLength x ≤ x.length := by
  have h1 := digitRun_le Char.isDigit x
  have h2 := fractionLength_le (x.drop (digitRun Char.isDigit x))
  have h3 := exponentLength_le
    (x.drop (digitRun Char.isDigit x + fractionLength (x.drop (digitRun Char.isDigit x))))
  simp only [List.length_drop] at h2 h3
  simp only [decimalLength]
  omega

/-- The digits of a number, without the mark of a big integer. -/
def numberDigits (text : List Char) : Nat :=
  match text with
  | '0' :: letter :: rest =>
    match radixDigit? letter with
    | some isDigit => 2 + digitRun isDigit rest
    | none => decimalLength text
  | _ => decimalLength text

theorem numberLength_eq (x : List Char) :
    numberLength x = numberDigits x + bigSuffixLength (x.drop (numberDigits x)) := rfl

theorem numberDigits_le (x : List Char) : numberDigits x ≤ x.length := by
  unfold numberDigits
  split
  · split
    · have := digitRun_le ‹Char → Bool› ‹List Char›
      simp only [List.length_cons]
      omega
    · exact decimalLength_le _
  · exact decimalLength_le _

theorem numberLength_le (x : List Char) : numberLength x ≤ x.length := by
  have h1 := numberDigits_le x
  have h2 := bigSuffixLength_le (x.drop (numberDigits x))
  rw [List.length_drop] at h2
  rw [numberLength_eq]
  omega

theorem radixDigit?_break {letter : Char} {isDigit : Char → Bool} (h : radixDigit? letter = some isDigit) :
    isDigit '\n' = false ∧ isDigit '\r' = false := by
  unfold radixDigit? at h
  split at h <;> cases h <;> decide

section Ahead

variable {tail : List Char} (ht : StartsBreak tail)
include ht

theorem decimalLength_append (x : List Char) : decimalLength (x ++ tail) = decimalLength x := by
  have hwhole := digitRun_append ht Char.isDigit (by decide) (by decide) x
  have h1 := digitRun_le Char.isDigit x
  have h2 := fractionLength_le (x.drop (digitRun Char.isDigit x))
  rw [List.length_drop] at h2
  simp only [decimalLength, hwhole, List.drop_append_of_le_length h1, fractionLength_append ht]
  rw [List.drop_append_of_le_length (by omega), exponentLength_append ht]

theorem numberDigits_append (x : List Char) : numberDigits (x ++ tail) = numberDigits x := by
  have hdecimal := decimalLength_append ht x
  rcases x with _ | ⟨zero, _ | ⟨letter, x⟩⟩
  · -- a line end begins no number
    rcases tail with _ | ⟨c, tail⟩
    · rfl
    · have hc : c ≠ '0' := by rcases ht c rfl with rfl | rfl <;> decide
      simpa [numberDigits, hc] using hdecimal
  · by_cases hz : zero = '0'
    · subst hz
      rcases tail with _ | ⟨c, tail⟩
      · rfl
      · have hc : radixDigit? c = none := by rcases ht c rfl with rfl | rfl <;> rfl
        simpa [numberDigits, hc] using hdecimal
    · simpa [numberDigits, hz] using hdecimal
  · by_cases hz : zero = '0'
    · subst hz
      simp only [List.cons_append, numberDigits]
      cases hr : radixDigit? letter with
      | none => exact hdecimal
      | some isDigit =>
        obtain ⟨hn, hr⟩ := radixDigit?_break hr
        simp only [digitRun_append ht isDigit hn hr]
    · simpa [numberDigits, hz] using hdecimal

/-- A number ends no later than its line. -/
theorem numberLength_append (x : List Char) : numberLength (x ++ tail) = numberLength x := by
  rw [numberLength_eq, numberLength_eq, numberDigits_append ht,
    List.drop_append_of_le_length (numberDigits_le x), bigSuffixLength_append ht]

/-- A punctuator ends no later than its line. -/
theorem at?_append (x : List Char) : Punctuator.at? (x ++ tail) = Punctuator.at? x := by
  have hfits : (fun p : Punctuator => p.chars.isPrefixOf (x ++ tail)) = fun p => p.chars.isPrefixOf x :=
    funext fun p => isPrefixOf_append_break ht _ _ (by cases p <;> decide) (by cases p <;> decide)
  rw [Punctuator.at?, Punctuator.at?, hfits]
  split
  · rename_i hfound
    -- the two characters of the mark stand before the line end
    have hp := List.find?_some hfound
    have hlen : 2 ≤ x.length := (List.isPrefixOf_iff_prefix.1 hp).length_le
    rw [List.drop_append_of_le_length hlen, any_head?_append_break ht (by decide) (by decide)]
  · rfl

end Ahead

theorem not_isIdentifierPart_break : isIdentifierPart '\n' = false ∧ isIdentifierPart '\r' = false := by
  decide +kernel

/-! ### Comments -/

theorem startsComment_append {tail : List Char} (ht : StartsBreak tail) (c : Char) (x : List Char) :
    startsComment (c :: (x ++ tail)) = startsComment (c :: x) := by
  rcases x with _ | ⟨d, x⟩
  · rcases tail with _ | ⟨d, tail⟩
    · rfl
    · rcases ht d rfl with rfl | rfl <;> simp [startsComment]
  · by_cases hc : c = '/'
    · subst hc
      by_cases h1 : d = '/'
      · simp [startsComment, h1]
      · by_cases h2 : d = '*' <;> simp [startsComment, h1, h2]
    · simp [startsComment, hc]

/-- A block comment is closed in its line, or goes on behind it. -/
theorem blockCommentTail_append {tail : List Char} (ht : StartsBreak tail) (x : List Char) :
    if (blockCommentTail x).2 = true then
      (blockCommentTail x).1 ≤ x.length ∧ blockCommentTail (x ++ tail) = blockCommentTail x
    else (blockCommentTail x).1 = x.length ∧
      blockCommentTail (x ++ tail) = (x.length + (blockCommentTail tail).1, (blockCommentTail tail).2) := by
  fun_induction blockCommentTail x with
  | case1 => simp
  | case2 => simp [blockCommentTail]
  | case3 c x hc ih =>
    have hstep : blockCommentTail (c :: (x ++ tail)) =
        ((blockCommentTail (x ++ tail)).1 + 1, (blockCommentTail (x ++ tail)).2) := by
      rw [blockCommentTail]
      rintro rest rfl hx
      rcases x with _ | ⟨d, x⟩
      · rcases tail with _ | ⟨d, tail⟩
        · cases hx
        · cases hx
          rcases ht '/' rfl with h | h <;> cases h
      · cases hx
        exact hc x rfl rfl
    rw [List.cons_append, hstep]
    split at ih
    · rename_i h
      rw [if_pos h, ih.2]
      exact ⟨by simpa using ih.1, rfl⟩
    · rename_i h
      rw [if_neg h, ih.2]
      refine ⟨by simpa using ih.1, ?_⟩
      simp only [List.length_cons, Prod.mk.injEq, and_true]
      omega

variable {gap : List Char} {next : Option (List Char)} (ht : LineEnd gap next)
include ht

/-- A block comment that is open at the end of a line is so at the start of the next. -/
theorem blockCommentTail_gap {more : List Char} (hn : next = some more) :
    blockCommentTail (gap ++ more) = (gap.length + (blockCommentTail more).1, (blockCommentTail more).2) := by
  cases ht <;> cases hn <;> simp [blockCommentTail] <;> omega

/-- A line comment takes the rest of its line, and no more than a carriage return besides. -/
theorem lineCommentLength_append : ∀ x : List Char, '\n' ∉ x →
    (gap = ['\n'] → x.getLast? ≠ some '\r') →
      lineCommentLength x = x.length ∧ x.length ≤ lineCommentLength (x ++ (gap ++ next.getD [])) ∧
        (next.isSome → lineCommentLength (x ++ (gap ++ next.getD [])) = x.length)
  | [], _, _ => ⟨rfl, Nat.zero_le _, fun hs => by cases ht <;> simp_all [lineCommentLength]⟩
  | c :: x, hx, hr => by
    simp only [List.mem_cons, not_or] at hx
    have hstep : ∀ y : List Char, ¬ (c = '\r' ∧ y.head? = some '\n') →
        lineCommentLength (c :: y) = lineCommentLength y + 1 := by
      intro y hy
      rw [lineCommentLength]
      · exact fun h => hx.1 h.symm
      · rintro rest rfl rfl
        exact hy ⟨rfl, rfl⟩
    have hx' : x.head? ≠ some '\n' := fun h => hx.2 (List.mem_of_head? h)
    have hnext : ¬ (c = '\r' ∧ (x ++ (gap ++ next.getD [])).head? = some '\n') := by
      rintro ⟨rfl, h⟩
      rcases x with _ | ⟨d, x⟩
      · cases ht <;> simp_all
      · exact hx' h
    obtain ⟨h1, h2, h3⟩ := lineCommentLength_append x hx.2 fun hg h => hr hg (by
      rw [List.getLast?_cons, h]
      rfl)
    rw [hstep x fun h => hx' h.2, List.cons_append, hstep _ hnext, h1]
    exact ⟨rfl, by simpa using h2, fun hs => by rw [h3 hs]; rfl⟩

omit ht

/-! ### Templates -/

theorem templateTail_cons {depth : Nat} {c : Char} {x : List Char} (hb : c ≠ '\\')
    (hd : ¬ (c = '$' ∧ x.head? = some '\x7b')) :
    templateTail depth (c :: x) = if c = '\x60' ∧ depth = 0 then (1, none)
      else
        let inner := if c = '\x7b' ∧ 0 < depth then depth + 1 else if c = '\x7d' then depth - 1 else depth
        ((templateTail inner x).1 + 1, (templateTail inner x).2) := by
  rw [templateTail]
  · exact fun h => (hb h).elim
  · rintro d rest h
    exact (hb h).elim
  · rintro rest rfl rfl
    exact hd ⟨rfl, rfl⟩

theorem templateTail_break {depth : Nat} {c : Char} {x : List Char} (hc : c = '\n' ∨ c = '\r') :
    templateTail depth (c :: x) = ((templateTail depth x).1 + 1, (templateTail depth x).2) := by
  rcases hc with rfl | rfl <;> rw [templateTail_cons (by decide) (by simp)] <;> rfl

theorem ne_backslash {c : Char} {x : List Char} (h1 : c = '\\' → x = [] → False)
    (h2 : ∀ d rest, c = '\\' → x = d :: rest → False) : c ≠ '\\' := by
  intro hc
  cases x with
  | nil => exact h1 hc rfl
  | cons d rest => exact h2 d rest hc rfl

/-- A character that stands for itself in a template does so in front of a line end too. -/
theorem templateTail_plain {tail x : List Char} (ht : StartsBreak tail) {c : Char} (h1 : c = '\\' → x = [] → False)
    (h2 : ∀ d rest, c = '\\' → x = d :: rest → False) (h3 : ∀ rest, c = '$' → x = '\x7b' :: rest → False) :
    c ≠ '\\' ∧ ¬ (c = '$' ∧ (x ++ tail).head? = some '\x7b') := by
  refine ⟨ne_backslash h1 h2, ?_⟩
  rintro ⟨hc, h⟩
  cases x with
  | nil => rcases ht '\x7b' h with h | h <;> cases h
  | cons d rest =>
    cases h
    exact h3 rest hc rfl

/-- A template that is closed in its line ends there. -/
theorem templateTail_closed {tail : List Char} (ht : StartsBreak tail) (depth : Nat) (x : List Char)
    (h : (templateTail depth x).2 = none) :
    (templateTail depth x).1 ≤ x.length ∧ templateTail depth (x ++ tail) = templateTail depth x := by
  fun_induction templateTail depth x with
  | case1 => cases h
  | case2 => cases h
  | case3 depth c x ih =>
    obtain ⟨hle, heq⟩ := ih h
    simp only [List.length_cons, List.cons_append, templateTail, heq, and_true]
    omega
  | case4 depth x ih =>
    obtain ⟨hle, heq⟩ := ih h
    simp only [List.length_cons, List.cons_append, templateTail, heq, and_true]
    omega
  | case5 depth c x h1 h2 h3 hc =>
    obtain ⟨hb, hd⟩ := templateTail_plain ht h1 h2 h3
    rw [List.cons_append, templateTail_cons hb hd, if_pos hc]
    simp
  | case6 depth c x h1 h2 h3 hc inner ih =>
    obtain ⟨hb, hd⟩ := templateTail_plain ht h1 h2 h3
    obtain ⟨hle, heq⟩ := ih h
    rw [List.cons_append, templateTail_cons hb hd, if_neg hc]
    exact ⟨by simpa using hle, by simp only [inner, heq]⟩

/-- A template that is open at the end of a line goes on in the next, inside as many braces. -/
theorem templateTail_open (ht : LineEnd gap next) (depth : Nat) (x : List Char) {openBraces : Nat}
    (h : (templateTail depth x).2 = some openBraces) :
    (templateTail depth x).1 = x.length ∧
      x.length ≤ (templateTail depth (x ++ (gap ++ next.getD []))).1 ∧
      ∀ more, next = some more → templateTail depth (x ++ (gap ++ more)) =
        (x.length + gap.length + (templateTail openBraces more).1, (templateTail openBraces more).2) := by
  fun_induction templateTail depth x with
  | case1 depth =>
    cases h
    refine ⟨rfl, Nat.zero_le _, ?_⟩
    rintro more rfl
    cases ht <;> simp [templateTail_break] <;> omega
  | case2 depth =>
    cases h
    refine ⟨rfl, ?_, ?_⟩
    · cases ht <;> simp [templateTail]
    · -- the backslash takes the first character of the line end with it
      rintro more rfl
      cases ht <;> simp [templateTail, templateTail_break] <;> omega
  | case3 depth c x ih =>
    obtain ⟨hlen, hle, heq⟩ := ih h
    simp only [List.length_cons, List.cons_append, templateTail, hlen]
    refine ⟨trivial, by omega, fun more hm => ?_⟩
    rw [heq more hm]
    simp only [Prod.mk.injEq, and_true]
    omega
  | case4 depth x ih =>
    obtain ⟨hlen, hle, heq⟩ := ih h
    simp only [List.length_cons, List.cons_append, templateTail, hlen]
    refine ⟨trivial, by omega, fun more hm => ?_⟩
    rw [heq more hm]
    simp only [Prod.mk.injEq, and_true]
    omega
  | case5 => cases h
  | case6 depth c x h1 h2 h3 hc inner ih =>
    obtain ⟨hlen, hle, heq⟩ := ih h
    have hstep : ∀ tail, StartsBreak tail → templateTail depth (c :: (x ++ tail)) =
        ((templateTail inner (x ++ tail)).1 + 1, (templateTail inner (x ++ tail)).2) := by
      intro tail ht
      obtain ⟨hb, hd⟩ := templateTail_plain ht h1 h2 h3
      rw [templateTail_cons hb hd, if_neg hc]
    refine ⟨by rw [hlen]; rfl, ?_, fun more hm => ?_⟩
    · rw [List.cons_append, hstep _ ht.startsBreak]
      simpa using hle
    · have hbreak : StartsBreak (gap ++ more) := by simpa [hm] using ht.startsBreak
      rw [List.cons_append, hstep _ hbreak, heq more hm]
      simp only [List.length_cons, Prod.mk.injEq, and_true]
      omega

/-! ### Strings -/

theorem stringTail_cons {quote c : Char} {x : List Char} (hb : c ≠ '\\') :
    stringTail quote (c :: x) = if c = quote then (1, true)
      else if isLineTerminator c then (0, false)
      else ((stringTail quote x).1 + 1, (stringTail quote x).2) := by
  rw [stringTail]
  · exact fun h => (hb h).elim
  · exact fun _ _ h => (hb h).elim

/-- A string ends in its line, or takes the character behind the line with a backslash that the
line ends in. -/
theorem stringTail_append {tail : List Char} (ht : StartsBreak tail) {quote : Char}
    (hn : quote ≠ '\n') (hr : quote ≠ '\r') (x : List Char) :
    ((stringTail quote x).1 ≤ x.length ∧ stringTail quote (x ++ tail) = stringTail quote x) ∨
    ∃ c rest, tail = c :: rest ∧ stringTail quote x = (x.length, false) ∧
      stringTail quote (x ++ tail) = (x.length + 1 + (stringTail quote rest).1, (stringTail quote rest).2) := by
  fun_induction stringTail quote x with
  | case1 =>
    refine .inl ⟨Nat.le_refl _, ?_⟩
    rcases tail with _ | ⟨c, rest⟩
    · rfl
    · have hc : c ≠ quote ∧ isLineTerminator c = true ∧ c ≠ '\\' := by
        rcases ht c rfl with rfl | rfl
        · exact ⟨hn.symm, by decide, by decide⟩
        · exact ⟨hr.symm, by decide, by decide⟩
      rw [List.nil_append, stringTail_cons hc.2.2, if_neg hc.1, if_pos hc.2.1]
  | case2 =>
    rcases tail with _ | ⟨c, rest⟩
    · exact .inl ⟨Nat.le_refl _, rfl⟩
    · refine .inr ⟨c, rest, rfl, rfl, ?_⟩
      simp only [List.cons_append, List.nil_append, stringTail, List.length_cons, List.length_nil,
        Prod.mk.injEq, and_true]
      omega
  | case3 c x ih =>
    simp only [List.length_cons, List.cons_append, stringTail]
    rcases ih with ⟨hle, heq⟩ | ⟨d, rest, hd, hx, heq⟩
    · exact .inl ⟨by omega, by rw [heq]⟩
    · refine .inr ⟨d, rest, hd, by rw [hx], ?_⟩
      simp only [heq, Prod.mk.injEq, and_true]
      omega
  | case4 x h1 h2 =>
    have hstep : ∀ y, stringTail quote (quote :: y) = (1, true) := fun y => by
      rw [stringTail_cons (ne_backslash h1 h2), if_pos rfl]
    exact .inl ⟨by simp, hstep _⟩
  | case5 c x h1 h2 hq hl =>
    refine .inl ⟨Nat.zero_le _, ?_⟩
    rw [List.cons_append, stringTail_cons (ne_backslash h1 h2), if_neg hq, if_pos hl]
  | case6 c x h1 h2 hq hl ih =>
    rw [List.cons_append, stringTail_cons (ne_backslash h1 h2), if_neg hq, if_neg hl]
    rcases ih with ⟨hle, heq⟩ | ⟨d, rest, hd, hx, heq⟩
    · exact .inl ⟨by simpa using hle, by rw [heq]⟩
    · refine .inr ⟨d, rest, hd, by rw [hx]; rfl, ?_⟩
      simp only [heq, List.length_cons, Prod.mk.injEq, and_true]
      omega

/-! ### Lexemes -/

/-- What a line leaves open, as the lexeme that the text after it begins with. -/
def LineState.open? : LineState → List Char → Option Lexeme
  | .normal, _ => none
  | .inComment, text => some ⟨.comment, (blockCommentTail text).1, !(blockCommentTail text).2⟩
  | .inTemplate depth, text =>
    some ⟨.template, (templateTail depth text).1, (templateTail depth text).2.isSome⟩

/-- A lexeme of a line of which `room` characters are left, and the lexeme that it is where the
line end and the next lines follow: it ends in the line, or goes on into what the line leaves
open. -/
inductive Lexeme.GoesOn (gap : List Char) (next : Option (List Char)) (room : Nat) (state : LineState)
    (short long : Lexeme) : Prop where
  | ends : long.kind = short.kind → long.extra = short.extra → short.extra ≤ room →
      (next.isSome → state = .normal) → GoesOn gap next room state short long
  | crosses : long.kind = short.kind → short.extra = room → room ≤ long.extra →
      (∀ more, next = some more → state.open? more = none → long.extra ≤ room + gap.length) →
      (∀ more lexeme, next = some more → state.open? more = some lexeme →
        lexeme.kind = long.kind ∧ long.extra = room + gap.length + lexeme.extra) →
      GoesOn gap next room state short long

/-- What a lexeme leaves open that is the last of its line. -/
def Lexeme.leaves (lexeme : Lexeme) (rest : List Char) : LineState :=
  if lexeme.unterminated then
    match lexeme.kind with
    | .comment => .inComment
    | .template => match (templateTail 0 rest).2 with
      | some depth => .inTemplate depth
      | none => .normal
    | _ => .normal
  else .normal

theorem LineState.after_toToken (lexeme : Lexeme) (start : Nat) (c : Char) (rest : List Char)
    (broken : Bool) : LineState.after (lexeme.toToken start (c :: rest) broken) = lexeme.leaves rest := by
  simp only [LineState.after, Lexeme.toToken, Lexeme.leaves, String.toList_ofList, List.drop_succ_cons,
    List.drop_zero]
  cases lexeme.unterminated <;> rfl

theorem at?_length_le {x : List Char} {mark : Punctuator} (h : Punctuator.at? x = some mark) :
    mark.chars.length ≤ x.length := by
  unfold Punctuator.at? at h
  split at h
  · rename_i hfound
    have hp := List.find?_some hfound
    have hle := (List.isPrefixOf_iff_prefix.1 hp).length_le
    split at h <;> cases h
    · exact Nat.le_trans (by decide) hle
    · exact hle
  · have hp := List.find?_some h
    exact (List.isPrefixOf_iff_prefix.1 hp).length_le

namespace Lexeme

theorem read_comment {c : Char} {x : List Char} (h : startsComment (c :: x) = true) :
    read true c x = ⟨.comment, (commentExtent (c :: x)).1 - 1, !(commentExtent (c :: x)).2⟩ := by
  simp [read, h]

theorem read_string {c : Char} (h : c = '\x27' ∨ c = '\x22') (x : List Char) :
    read true c x = ⟨.string, (stringTail c x).1, !(stringTail c x).2⟩ := by
  have hc : startsComment (c :: x) = false := by rcases h with rfl | rfl <;> rfl
  simp [read, hc, h]

theorem read_template (x : List Char) :
    read true '\x60' x = ⟨.template, (templateTail 0 x).1, (templateTail 0 x).2.isSome⟩ := rfl

/-- A lexeme that is no comment, string or template ends in its line. -/
theorem read_plain {tail : List Char} (ht : StartsBreak tail) {c : Char} {x : List Char}
    (hc : startsComment (c :: x) = false) (hq : ¬ (c = '\x27' ∨ c = '\x22')) (hb : c ≠ '\x60') :
    read true c (x ++ tail) = read true c x ∧ (read true c x).extra ≤ x.length ∧
      (read true c x).unterminated = false := by
  have hnumber := numberLength_append ht (c :: x)
  have hhead := any_head?_append_break ht (p := Char.isDigit) (by decide) (by decide) x
  have hname := takeWhile_append_break ht not_isIdentifierPart_break.1 not_isIdentifierPart_break.2 x
  have hmark := at?_append ht (c :: x)
  rw [List.cons_append] at hnumber hmark
  have hc' := (startsComment_append ht c x).trans hc
  have heq : read true c (x ++ tail) = read true c x := by
    simp only [read, hc, hc', Bool.and_false, Bool.false_eq_true, ↓reduceIte, hq, hb, hhead, hnumber,
      hname, hmark]
  refine ⟨heq, ?_⟩
  simp only [read, hc, Bool.and_false, Bool.false_eq_true, ↓reduceIte, hq, hb]
  split
  · have := numberLength_le (c :: x)
    simp only [List.length_cons] at this
    exact ⟨by simp only; omega, rfl⟩
  · split
    · exact ⟨(List.takeWhile_sublist _).length_le, rfl⟩
    · split
      · rename_i mark hm
        have := at?_length_le hm
        simp only [List.length_cons] at this
        exact ⟨by simp only; omega, rfl⟩
      · exact ⟨Nat.zero_le _, rfl⟩

theorem goesOn_comment (ht : LineEnd gap next) {c : Char} {x : List Char} (hx : '\n' ∉ x)
    (hr : gap = ['\n'] → x.getLast? ≠ some '\r') (hc : startsComment (c :: x) = true) :
    GoesOn gap next x.length ((read true c x).leaves (x.take (read true c x).extra)) (read true c x)
      (read true c (x ++ (gap ++ next.getD []))) := by
  have hc' := (startsComment_append ht.startsBreak c x).trans hc
  rw [read_comment hc, read_comment hc']
  rcases x with _ | ⟨d, x⟩
  · simp [startsComment] at hc
  obtain ⟨rfl, rfl | rfl⟩ : c = '/' ∧ (d = '/' ∨ d = '*') := by
    unfold startsComment at hc
    split at hc <;> simp_all
  · -- a line comment
    have hlast : gap = ['\n'] → x.getLast? ≠ some '\r' := fun hg h => hr hg (by
      rw [List.getLast?_cons, h]
      rfl)
    obtain ⟨h1, h2, h3⟩ := lineCommentLength_append ht x (fun h => hx (List.mem_cons_of_mem _ h)) hlast
    simp only [List.cons_append, commentExtent, h1, List.length_cons]
    cases hn : next with
    | some more =>
      rw [hn] at h3
      exact .ends rfl (by simp only [Option.getD_some] at h3 ⊢; rw [h3 rfl]) (by simp) fun _ => rfl
    | none =>
      rw [hn] at h2
      exact .crosses rfl rfl (by simp only [Option.getD_none] at h2 ⊢; omega) (by simp) (by simp)
  · -- a block comment
    have hblock := blockCommentTail_append ht.startsBreak x
    simp only [List.cons_append, commentExtent, List.length_cons]
    split at hblock
    · rename_i hclosed
      obtain ⟨hle, heq⟩ := hblock
      rw [heq, hclosed]
      exact .ends rfl rfl (by simp only; omega) fun _ => rfl
    · rename_i hclosed
      obtain ⟨hlen, heq⟩ := hblock
      have hstate : leaves ⟨.comment, (blockCommentTail x).1 + 2 - 1, !(blockCommentTail x).2⟩
          (('*' :: x).take ((blockCommentTail x).1 + 2 - 1)) = .inComment := by
        simp [leaves, hclosed]
      rw [hstate, heq]
      refine .crosses rfl (by simp only; omega) (by simp only; omega) (fun _ _ h => by cases h) ?_
      rintro more lexeme hn h
      cases h
      rw [hn, Option.getD_some, blockCommentTail_gap ht hn]
      exact ⟨rfl, by simp only; omega⟩

theorem goesOn_string (ht : LineEnd gap next) {c : Char} {x : List Char} (hc : c = '\x27' ∨ c = '\x22')
    (hs : '\n' ∉ (x ++ (gap ++ next.getD [])).take (read true c (x ++ (gap ++ next.getD []))).extra) :
    GoesOn gap next x.length ((read true c x).leaves (x.take (read true c x).extra)) (read true c x)
      (read true c (x ++ (gap ++ next.getD []))) := by
  have hstate : (read true c x).leaves (x.take (read true c x).extra) = .normal := by
    rw [read_string hc, leaves]
    split <;> rfl
  rw [hstate]
  have hne : c ≠ '\n' ∧ c ≠ '\r' := by rcases hc with rfl | rfl <;> decide
  rw [read_string hc] at hs ⊢
  rw [read_string hc]
  rcases stringTail_append ht.startsBreak hne.1 hne.2 x with ⟨hle, heq⟩ | ⟨d, rest, htail, hshort, heq⟩
  · rw [heq]
    exact .ends rfl rfl hle fun _ => rfl
  · rw [heq] at hs ⊢
    rw [hshort]
    rw [htail] at hs
    refine .crosses rfl rfl (by simp only; omega) ?_ (fun _ _ _ h => by cases h)
    rintro more rfl -
    cases ht with
    | feed =>
      -- the string would take the line feed with it
      cases htail
      refine absurd ?_ hs
      rw [List.mem_take_iff_getElem]
      exact ⟨x.length, by simp; omega, by simp⟩
    | returnFeed =>
      cases htail
      have hstop : stringTail c ('\n' :: more) = (0, false) := by
        rw [stringTail_cons (by decide), if_neg (Ne.symm hne.1), if_pos (by decide)]
      simp [hstop]

theorem goesOn_template (ht : LineEnd gap next) (x : List Char) :
    GoesOn gap next x.length ((read true '\x60' x).leaves (x.take (read true '\x60' x).extra))
      (read true '\x60' x) (read true '\x60' (x ++ (gap ++ next.getD []))) := by
  rw [read_template, read_template]
  cases hleft : (templateTail 0 x).2 with
  | none =>
    obtain ⟨hle, heq⟩ := templateTail_closed ht.startsBreak 0 x hleft
    rw [heq, hleft]
    exact .ends rfl rfl hle fun _ => rfl
  | some openBraces =>
    obtain ⟨hlen, hle, heq⟩ := templateTail_open ht 0 x hleft
    have hstate : leaves ⟨.template, (templateTail 0 x).1, (some openBraces).isSome⟩
        (x.take (templateTail 0 x).1) = .inTemplate openBraces := by
      simp [leaves, hlen, hleft]
    rw [hstate]
    refine .crosses rfl hlen hle (fun _ _ h => by cases h) ?_
    rintro more lexeme hn h
    cases h
    rw [hn, Option.getD_some, heq more hn]
    exact ⟨rfl, rfl⟩

/-- **A lexeme of a line goes on as the line does.** -/
theorem read_append (ht : LineEnd gap next) {c : Char} {x : List Char} (hx : '\n' ∉ x)
    (hr : gap = ['\n'] → x.getLast? ≠ some '\r')
    (hs : (read true c (x ++ (gap ++ next.getD []))).kind = .string →
      '\n' ∉ (x ++ (gap ++ next.getD [])).take (read true c (x ++ (gap ++ next.getD []))).extra) :
    GoesOn gap next x.length ((read true c x).leaves (x.take (read true c x).extra)) (read true c x)
      (read true c (x ++ (gap ++ next.getD []))) := by
  cases hc : startsComment (c :: x) with
  | true => exact goesOn_comment ht hx hr hc
  | false =>
    by_cases hq : c = '\x27' ∨ c = '\x22'
    · exact goesOn_string ht hq (hs (by rw [read_string hq]))
    · by_cases hb : c = '\x60'
      · subst hb
        exact goesOn_template ht x
      · obtain ⟨heq, hle, hclosed⟩ := read_plain ht.startsBreak hc hq hb
        rw [heq]
        exact .ends rfl rfl hle fun _ => by rw [leaves, hclosed]; rfl

end Lexeme

end Typeahead
