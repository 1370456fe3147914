/-
# A written chain is found from its end

The text is read backwards over one step after the other, and over the head, to a character
that no chain goes on with. Each step is read whatever stands in front of it, so what the
reader does is composed step by step.

Key definitions: `Passes`, `lastWord`, `BeginsAfter`.
Key theorems: `groupLength?_balanced`, `passes_stepText`, `expressionBefore_written`.
-/
import Typeahead.Proofs.Chain.Written

namespace Typeahead

open Text Chain Extract

/-! ### Strings -/

theorem isUnescaped_cons {c : Char} (h : c ≠ '\\') (before : List Char) : isUnescaped (c :: before) = true := by
  simp [isUnescaped, h]

theorem isUnescaped_backslash (before : List Char) : isUnescaped ('\\' :: before) = !isUnescaped before := by
  simp only [isUnescaped, List.takeWhile_cons, beq_self_eq_true, ↓reduceIte, List.length_cons]
  rcases Nat.mod_two_eq_zero_or_one (before.takeWhile (· == '\\')).length with h | h <;>
    simp [Nat.add_mod, h]

/-- A mark in a quoted text stands behind an odd number of backslashes. -/
theorem QuotedBody.escaped_mark {mark : Char} {body : List Char} (h : QuotedBody mark body)
    (hm : mark ≠ '\\') : ∀ front back before, body = front ++ mark :: back → isUnescaped before = true →
      isUnescaped (front.reverse ++ before) = false := by
  induction h with
  | nil => intro front back before heq; simp at heq
  | @plain c body hc hb _ ih =>
    rintro (_ | ⟨d, front⟩) back before heq hbefore
    · cases heq
      exact absurd rfl hc
    · rw [List.cons_append, List.cons.injEq] at heq
      obtain ⟨rfl, heq⟩ := heq
      have := ih front back (c :: before) heq (isUnescaped_cons hb before)
      simpa using this
  | @escaped c body _ ih =>
    rintro (_ | ⟨d, _ | ⟨e, front⟩⟩) back before heq hbefore
    · cases heq
      exact absurd rfl hm
    · cases heq
      simp [isUnescaped_backslash, hbefore]
    · simp only [List.cons_append, List.cons.injEq] at heq
      obtain ⟨rfl, rfl, heq⟩ := heq
      -- the pair leaves the number of backslashes even
      have hpair : isUnescaped (c :: '\\' :: before) = true := by
        by_cases hc : c = '\\'
        · rw [hc, isUnescaped_backslash, isUnescaped_backslash, Bool.not_not, hbefore]
        · exact isUnescaped_cons hc _
      have := ih front back (c :: '\\' :: before) heq hpair
      simpa using this

/-! ### Groups -/

/-- A string is passed from its end to the mark that opens it. -/
theorem groupLength?_quoted (mark : Char) (depth : Nat) {before : List Char}
    (hbefore : isUnescaped before = true) : ∀ text : List Char,
    (∀ front back, text = front ++ mark :: back → isUnescaped (back ++ mark :: before) = false) →
      groupLength? (some mark) depth (text ++ mark :: before) =
        (groupLength? none depth before).map (· + (text.length + 1))
  | [], _ => by simp [groupLength?, hbefore]
  | c :: text, h => by
    have ih := groupLength?_quoted mark depth hbefore text fun front back heq =>
      h (c :: front) back (by rw [heq]; rfl)
    have hc : ¬ (c = mark ∧ isUnescaped (text ++ mark :: before) = true) := by
      rintro ⟨rfl, hu⟩
      rw [h [] text rfl] at hu
      cases hu
    rw [List.cons_append, groupLength?, if_neg hc, ih]
    simp [Function.comp_def, Nat.add_assoc]

theorem isQuote_ne_backslash {c : Char} (h : isQuote c = true) : c ≠ '\\' := by
  rintro rfl
  cases h

section Steps

variable {c : Char} {depth : Nat} {before : List Char}

theorem groupLength?_plain (hq : isQuote c = false) (ho : isOpening c = false) (hc : isClosing c = false) :
    groupLength? none depth (c :: before) = (groupLength? none depth before).map (· + 1) := by
  conv_lhs => unfold groupLength?
  simp [hq, ho, hc]

theorem groupLength?_quote (hq : isQuote c = true) :
    groupLength? none depth (c :: before) = (groupLength? (some c) depth before).map (· + 1) := by
  conv_lhs => unfold groupLength?
  simp [hq]

theorem groupLength?_closing {opening : Char} (h : BracketPair opening c) :
    groupLength? none depth (c :: before) = (groupLength? none (depth + 1) before).map (· + 1) := by
  conv_lhs => unfold groupLength?
  cases h <;> simp [isQuote, isClosing]

theorem groupLength?_opening {closing : Char} (h : BracketPair c closing) :
    groupLength? none (depth + 2) (c :: before) = (groupLength? none (depth + 1) before).map (· + 1) := by
  conv_lhs => unfold groupLength?
  cases h <;> simp [isQuote, isClosing, isOpening]

theorem groupLength?_opens {closing : Char} (h : BracketPair c closing) :
    groupLength? none 1 (c :: before) = some 1 := by
  conv_lhs => unfold groupLength?
  cases h <;> simp [isQuote, isClosing, isOpening]

end Steps

theorem BracketPair.ne_backslash {opening closing : Char} (h : BracketPair opening closing) :
    opening ≠ '\\' ∧ closing ≠ '\\' := by
  cases h <;> decide

/-- **A balanced text in a group is passed from its end.** -/
theorem groupLength?_balanced {text : List Char} (h : Balanced text) : ∀ (depth : Nat) (before : List Char),
    isUnescaped before = true → groupLength? none (depth + 1) (text.reverse ++ before) =
      (groupLength? none (depth + 1) before).map (· + text.length) := by
  induction h with
  | nil => intro depth before _; simp
  | @plain c text hq ho hc hb _ ih =>
    intro depth before hbefore
    rw [List.reverse_cons, List.append_assoc, List.singleton_append, ih _ _ (isUnescaped_cons hb _),
      groupLength?_plain hq ho hc]
    simp [Function.comp_def, Nat.add_assoc, Nat.add_comm 1]
  | @quoted mark body text hq hbody _ ih =>
    intro depth before hbefore
    have hm := isQuote_ne_backslash hq
    have hsplit : (mark :: (body ++ mark :: text)).reverse ++ before =
        text.reverse ++ mark :: (body.reverse ++ mark :: before) := by simp
    have hstring := groupLength?_quoted mark (depth + 1) hbefore body.reverse fun front back heq => by
      have hbody' : body = back.reverse ++ mark :: front.reverse := by
        rw [← List.reverse_reverse body, heq]
        simp
      simpa using hbody.escaped_mark hm back.reverse front.reverse _ hbody' (isUnescaped_cons hm before)
    rw [hsplit, ih _ _ (isUnescaped_cons hm _), groupLength?_quote hq, hstring]
    simp only [Option.map_map, Function.comp_def, List.length_cons, List.length_append, List.length_reverse]
    exact congrArg (Option.map · _) (funext fun n => by omega)
  | @group opening closing inner text hpair _ _ ihinner ih =>
    intro depth before hbefore
    have hsplit : (opening :: (inner ++ closing :: text)).reverse ++ before =
        text.reverse ++ closing :: (inner.reverse ++ opening :: before) := by simp
    rw [hsplit, ih _ _ (isUnescaped_cons hpair.ne_backslash.2 _), groupLength?_closing hpair,
      ihinner _ _ (isUnescaped_cons hpair.ne_backslash.1 _), groupLength?_opening hpair]
    simp only [Option.map_map, Function.comp_def, List.length_cons, List.length_append]
    exact congrArg (Option.map · _) (funext fun n => by omega)

/-! ### Steps -/

/-- A text is read backwards whole, whatever stands in front of it and was read behind it. What
is read last, if it is not a bracket, is the same then. -/
def Passes (text : List Char) : Prop :=
  ∀ next, ∃ next', ∀ before, reach next (text.reverse ++ before) = text.length + reach next' before

theorem Passes.nil : Passes [] := fun next => ⟨next, fun before => by simp⟩

theorem Passes.append {a b : List Char} (ha : Passes a) (hb : Passes b) : Passes (a ++ b) := by
  intro next
  obtain ⟨next', h⟩ := hb next
  obtain ⟨next'', h'⟩ := ha next'
  refine ⟨next'', fun before => ?_⟩
  rw [List.reverse_append, List.append_assoc, h, h', List.length_append]
  omega

theorem passes_char {c : Char} (h : isIdentifierPart c = true ∨ c = '.') : Passes [c] := by
  refine fun next => ⟨some c, fun before => ?_⟩
  have hc : (isIdentifierPart c || c == '.' || (c == '?' && next == some '.')) = true := by
    rcases h with h | rfl
    · simp [h]
    · simp
  rw [List.reverse_singleton, List.singleton_append, reach, if_pos hc]
  rfl

theorem passes_name : ∀ {name : List Char}, (∀ c ∈ name, isIdentifierPart c = true) → Passes name
  | [], _ => .nil
  | c :: _, h => (passes_char (.inl (h c List.mem_cons_self))).append
      (passes_name fun d hd => h d (List.mem_cons_of_mem _ hd))

theorem passes_optionalDot : Passes ['?', '.'] := by
  refine fun next => ⟨some '?', fun before => ?_⟩
  simp [reach]
  omega

theorem passes_dot {dot : List Char} (h : IsDot dot) : Passes dot := by
  rcases h with rfl | rfl
  · exact passes_char (.inr rfl)
  · exact passes_optionalDot

/-- A group is read backwards from the bracket that closes it. -/
theorem passes_group {opening closing : Char} {text : List Char} (h : Balanced text)
    (hpair : BracketPair opening closing) (hne : closing ≠ '\x7d') : Passes (opening :: (text ++ [closing])) := by
  refine fun next => ⟨none, fun before => ?_⟩
  have hgroup : groupLength? none 1 (text.reverse ++ opening :: before) = some (text.length + 1) := by
    rw [groupLength?_balanced h 0 _ (isUnescaped_cons hpair.ne_backslash.1 _), groupLength?_opens hpair]
    simp [Nat.add_comm]
  have hclosing : (isIdentifierPart closing || closing == '.' || (closing == '?' && next == some '.')) = false ∧
      (closing == ')' || closing == ']') = true := by
    cases hpair with
    | round => exact ⟨by rw [isIdentifierPart_chainMarks _ (by decide)]; rfl, rfl⟩
    | square => exact ⟨by rw [isIdentifierPart_chainMarks _ (by decide)]; rfl, rfl⟩
    | curly => exact absurd rfl hne
  have hreverse : (opening :: (text ++ [closing])).reverse ++ before =
      closing :: (text.reverse ++ opening :: before) := by simp
  have hrest : (text.reverse ++ opening :: before).drop (text.length + 1) = before := by
    rw [← List.length_reverse, ← List.drop_drop, List.drop_left]
    rfl
  rw [hreverse, reach, if_neg (by simp [hclosing.1]), if_pos hclosing.2, hgroup]
  simp only [hrest, List.length_cons, List.length_append, List.length_nil]
  omega

theorem passes_stepText {step : ChainStep} {text : List Char} (h : StepText Balanced step text) :
    Passes text := by
  cases h with
  | member hdot _ hname => exact (passes_dot hdot).append (passes_name hname)
  | method hdot _ hname hargs =>
    exact (passes_dot hdot).append ((passes_name hname).append (passes_group hargs .round (by decide)))
  | index hdot htext =>
    refine Passes.append ?_ (passes_group htext.balanced .square (by decide))
    rcases hdot with rfl | rfl
    · exact .nil
    · exact passes_optionalDot
  | call hargs => exact passes_group hargs .round (by decide)

theorem passes_stepsText {steps : List ChainStep} {text : List Char} (h : StepsText Balanced steps text) :
    Passes text := by
  induction h with
  | nil => exact .nil
  | cons hstep _ ih => exact (passes_stepText hstep).append ih

/-! ### The chain in front of the cursor -/

/-- The last word of a text, behind which only blanks stand. -/
def lastWord (text : List Char) : List Char :=
  ((text.reverse.dropWhile isBlank).takeWhile isIdentifierPart).reverse

/-- A chain may begin behind a text: the text does not end in what would belong to the chain,
and its last word does not either, as far as the `seen` characters at its end show it. -/
structure BeginsAfter (before : List Char) (seen : Nat) : Prop where
  last : ∀ c ∈ before.getLast?, isIdentifierPart c = false ∧ isQuote c = false ∧ c ≠ '.' ∧ c ≠ ')' ∧ c ≠ ']'
  word : lastWord (before.drop (before.length - seen)) ≠ "new".toList

theorem newBefore_eq_nil {before : List Char}
    (h : (before.dropWhile isBlank).takeWhile isIdentifierPart ≠ "wen".toList) : newBefore before = [] := by
  have hdrop : before.drop (before.takeWhile isBlank).length = before.dropWhile isBlank :=
    List.append_cancel_left ((List.prefix_iff_eq_append.1 (List.takeWhile_prefix _)).trans
      List.takeWhile_append_dropWhile.symm)
  simp only [newBefore, hdrop]
  split
  · rename_i more _ hword
    have hparts : isIdentifierPart 'w' = true ∧ isIdentifierPart 'e' = true ∧ isIdentifierPart 'n' = true := by
      decide +kernel
    rw [if_pos]
    by_contra hmore
    refine h ?_
    have : more.takeWhile isIdentifierPart = [] := by
      cases more with
      | nil => rfl
      | cons c more => exact List.takeWhile_cons_of_neg (by simpa using hmore)
    rw [hword]
    simp [hparts, this]
  · rfl

theorem reach_eq_zero {next : Option Char} {before : List Char} (hnext : next ≠ some '.')
    (h : ∀ c ∈ before.head?, isIdentifierPart c = false ∧ isQuote c = false ∧ c ≠ '.' ∧ c ≠ ')' ∧ c ≠ ']') :
    reach next before = 0 := by
  cases before with
  | nil => rw [reach]
  | cons c before =>
    obtain ⟨h1, h2, h3, h4, h5⟩ := h c rfl
    rw [reach, if_neg, if_neg, if_neg] <;> simp [h1, h2, h3, h4, h5, hnext]

theorem reach_name {c : Char} {name : List Char} (hname : ∀ d ∈ c :: name, isIdentifierPart d = true)
    (next : Option Char) (before : List Char) :
    reach next ((c :: name).reverse ++ before) = (c :: name).length + reach (some c) before := by
  obtain ⟨next', h⟩ := passes_name (fun d hd => hname d (List.mem_cons_of_mem c hd)) next
  rw [List.reverse_cons, List.append_assoc, List.singleton_append, h, reach,
    if_pos (by simp [hname c List.mem_cons_self]), List.length_cons]
  omega

theorem AccessChain.WrittenAs.ident {chain : AccessChain} {written : List Char} (h : chain.WrittenAs written) :
    ∃ c name, chain.head.toList = c :: name ∧ isIdentifierStart c = true ∧
      ∀ d ∈ c :: name, isIdentifierPart d = true :=
  ident_of_isIdentifier h.head

theorem head?_of_take {text : List Char} {length : Nat} {c : Char} (h : c ∈ (text.take length).head?) :
    c ∈ text.head? := by
  cases text <;> cases length <;> simp_all

/-- **A written chain is found from its end.** -/
theorem expressionBefore_written {chain : AccessChain} {before written dot : List Char}
    (h : chain.WrittenAs written) (hdot : IsDot dot) (hfits : (written ++ dot).length ≤ scanLimit)
    (hbefore : BeginsAfter before (scanLimit - (written ++ dot).length)) :
    expressionBefore (before ++ (written ++ dot)) (unitLength (before ++ (written ++ dot))) = written ++ dot := by
  obtain ⟨c, name, hhead, -, hname⟩ := h.ident
  obtain ⟨steps, hsteps, htext⟩ := h.spelled
  have hc := hname c List.mem_cons_self
  -- what is seen of the text in front
  let seen := before.reverse.take (scanLimit - (written ++ dot).length)
  have hwindow : (before ++ (written ++ dot)).reverse.take scanLimit = (written ++ dot).reverse ++ seen := by
    rw [List.reverse_append, List.take_append, List.take_of_length_le (by rwa [List.length_reverse]),
      List.length_reverse]
  have hreach : reach none ((written ++ dot).reverse ++ seen) = (written ++ dot).length := by
    obtain ⟨next, hpass⟩ := ((passes_stepsText hsteps).append (passes_dot hdot)) none
    have hseen : reach (some c) seen = 0 := by
      refine reach_eq_zero ?_ ?_
      · rintro h
        cases h
        exact not_mem_chainMarks hc (by decide)
      · intro d hd
        exact hbefore.last d (List.head?_reverse ▸ head?_of_take hd)
    rw [htext, hhead, List.append_assoc, List.reverse_append, List.append_assoc, hpass, reach_name hname, hseen]
    simp only [List.length_append, List.length_cons]
    omega
  have hword : newBefore seen = [] := by
    refine newBefore_eq_nil fun heq => hbefore.word ?_
    rw [lastWord, ← List.take_reverse, heq]
    rfl
  have hwritten : written ++ dot = c :: (name ++ steps ++ dot) := by
    rw [htext, hhead]
    rfl
  have hstart : (written ++ dot).dropWhile (fun c => c == '.' || c == '?') = written ++ dot := by
    rw [hwritten]
    refine List.dropWhile_cons_of_neg fun hmark => not_mem_chainMarks hc ?_
    simp only [Bool.or_eq_true, beq_iff_eq] at hmark
    rcases hmark with rfl | rfl <;> decide
  have hchain : ((written ++ dot).reverse ++ seen).take (written ++ dot).length = (written ++ dot).reverse := by
    rw [← List.length_reverse, List.take_left]
  have hrest : ((written ++ dot).reverse ++ seen).drop (written ++ dot).length = seen := by
    rw [← List.length_reverse, List.drop_left]
  have hident : (written ++ dot).head?.any isIdentifierPart = true := by rw [hwritten]; exact hc
  simp only [expressionBefore, takeUnits_unitLength, hwindow, chainBefore, hreach, hchain, List.reverse_reverse,
    hstart, hident, hrest, hword, if_true, List.nil_append]

end Typeahead
