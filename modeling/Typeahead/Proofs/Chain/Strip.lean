/-
# Chains without their arguments

Before a chain is split, the arguments of its calls are left out. What is left of a text in which
brackets and strings are closed does not depend on what comes behind it, so what is left of a
chain is found link by link.

Key definitions: `lastInk`, `StripsTo`.
Key theorems: `skipArguments_closed`, `Closed.strips`, `strips_placedText`.
-/
import Mathlib.Data.List.Induction
import Typeahead.Proofs.Chain.Backward
import Typeahead.Proofs.Chain.Links

namespace Typeahead

open Text Chain

/-! ### Strings -/

theorem next_between {mark c : Char} (hm : c ≠ mark) (hb : c ≠ '\\') :
    Quoting.next (.between mark) c = .between mark := by
  simp [Quoting.next, hm, hb]

theorem next_mark {mark : Char} (hm : mark ≠ '\\') : Quoting.next (.between mark) mark = .outside := by
  simp [Quoting.next, hm]

theorem next_quote {mark : Char} (hq : isQuote mark = true) : Quoting.next .outside mark = .between mark := by
  simp [Quoting.next, hq]

theorem next_outside {c : Char} (hq : isQuote c = false) : Quoting.next .outside c = .outside := by
  simp [Quoting.next, hq]

theorem BracketPair.not_isQuote {opening closing : Char} (h : BracketPair opening closing) :
    isQuote opening = false ∧ isQuote closing = false := by
  cases h <;> decide

/-! ### Arguments -/

theorem skipArguments_quoted {mark : Char} {body : List Char} (h : QuotedBody mark body) (depth : Nat)
    (rest : List Char) :
    skipArguments (.between mark) depth (body ++ rest) = skipArguments (.between mark) depth rest := by
  induction h with
  | nil => rfl
  | plain hm hb _ ih =>
    rw [List.cons_append, skipArguments, if_neg (by simp), if_neg (by simp), next_between hm hb, ih]
  | @escaped c body _ ih =>
    rw [List.cons_append, skipArguments, if_neg (by simp), if_neg (by simp), List.cons_append, skipArguments,
      if_neg (by simp [Quoting.next]), if_neg (by simp [Quoting.next])]
    exact ih

/-- **A closed text among the arguments is skipped.** -/
theorem skipArguments_closed {text : List Char} (h : Closed text) : ∀ (depth : Nat) (rest : List Char),
    skipArguments .outside (depth + 1) (text ++ rest) = skipArguments .outside (depth + 1) rest := by
  induction h with
  | nil => intro depth rest; rfl
  | plain hq ho hc _ ih =>
    intro depth rest
    rw [List.cons_append, skipArguments, if_neg (by simp [ho]), if_neg (by simp [hc]), next_outside hq, ih]
  | @quoted mark body text hq hbody _ ih =>
    intro depth rest
    have hm : isOpening mark = false ∧ isClosing mark = false := by
      simp only [isQuote, Bool.or_eq_true, beq_iff_eq] at hq
      rcases hq with (rfl | rfl) | rfl <;> decide
    rw [List.cons_append, skipArguments, if_neg (by simp [hm.1]), if_neg (by simp [hm.2]), next_quote hq,
      List.append_assoc, skipArguments_quoted hbody, List.cons_append, skipArguments, if_neg (by simp),
      if_neg (by simp), next_mark (isQuote_ne_backslash hq), ih]
  | @group opening closing inner text hpair _ _ ihinner ih =>
    intro depth rest
    have hb : isOpening opening = true ∧ isOpening closing = false ∧ isClosing closing = true := by
      cases hpair <;> decide
    rw [List.cons_append, skipArguments, if_pos ⟨rfl, hb.1⟩, List.append_assoc, ihinner, List.cons_append,
      skipArguments, if_neg (by simp [hb.2.1]), if_pos ⟨rfl, hb.2.2⟩, if_neg (by omega), Nat.add_sub_cancel, ih]

/-- The last character of a text that is no blank, or else the one before the text. -/
def lastInk (previous : Option Char) (text : List Char) : Option Char :=
  text.foldl (fun previous c => if isBlank c then previous else some c) previous

theorem lastInk_eq (previous : Option Char) (text : List Char) :
    lastInk previous text = (trimEnd text).getLast?.or previous := by
  induction text using List.reverseRecOn with
  | nil => rfl
  | append_singleton text c ih =>
    have hstep : lastInk previous (text ++ [c]) = if isBlank c then lastInk previous text else some c := by
      rw [lastInk, List.foldl_append]
      rfl
    rw [hstep, ih, trimEnd, trimEnd, List.reverse_concat, List.dropWhile_cons]
    split
    · rfl
    · simp

/-- Where nothing looks like the arguments of a call, nothing is left out. -/
theorem stripFrom_append : ∀ (text : List Char) (q : Quoting) (previous : Option Char) (rest : List Char),
    (∀ front back, text = front ++ '(' :: back → q.after front = .outside →
      (lastInk previous front).any endsCallee = false) →
    stripFrom q previous (text ++ rest) = text ++ stripFrom (q.after text) (lastInk previous text) rest
  | [], _, _, _, _ => rfl
  | c :: text, q, previous, rest, h => by
    have ih := stripFrom_append text (q.next c) (if isBlank c then previous else some c) rest
      fun front back heq hq => h (c :: front) back (by rw [heq]; rfl) hq
    have hc : ¬ (q = .outside ∧ c = '(' ∧ previous.any endsCallee = true) := by
      rintro ⟨hq, rfl, hp⟩
      rw [show previous.any endsCallee = false from h [] text rfl hq] at hp
      cases hp
    rw [List.cons_append, stripFrom, if_neg hc, ih]
    rfl

/-- A text is stripped to another: what it is stripped of are the arguments of calls, and it ends in
what may be called. -/
def StripsTo (text bare : List Char) : Prop :=
  ∀ previous rest, previous.any endsCallee = true → ∃ previous', previous'.any endsCallee = true ∧
    stripFrom .outside previous (text ++ rest) = bare ++ stripFrom .outside previous' rest

theorem StripsTo.nil : StripsTo [] [] := fun previous _ h => ⟨previous, h, rfl⟩

theorem StripsTo.append {a a' b b' : List Char} (ha : StripsTo a a') (hb : StripsTo b b') :
    StripsTo (a ++ b) (a' ++ b') := by
  intro previous rest h
  obtain ⟨previous', h', ha⟩ := ha previous (b ++ rest) h
  obtain ⟨previous'', h'', hb⟩ := hb previous' rest h'
  exact ⟨previous'', h'', by rw [List.append_assoc, ha, hb, List.append_assoc]⟩

theorem strips_arguments {args : List Char} (h : Closed args) : StripsTo ('(' :: (args ++ [')'])) ['(', ')'] := by
  intro previous rest hp
  refine ⟨some ')', rfl, ?_⟩
  rw [List.cons_append, stripFrom, if_pos ⟨rfl, rfl, hp⟩, List.append_assoc, skipArguments_closed h,
    List.singleton_append, skipArguments, if_neg (by simp [isOpening]), if_pos ⟨rfl, rfl⟩, if_pos (Nat.le_refl _)]
  rfl

theorem after_of_not_isQuote : ∀ {text : List Char}, (∀ c ∈ text, isQuote c = false) →
    Quoting.outside.after text = .outside
  | [], _ => rfl
  | c :: text, h => by
    rw [Quoting.after, List.foldl_cons, next_outside (h c List.mem_cons_self)]
    exact after_of_not_isQuote fun d hd => h d (List.mem_cons_of_mem _ hd)

theorem stripFrom_plain {text : List Char} (h : ∀ c ∈ text, isQuote c = false ∧ c ≠ '(')
    (previous : Option Char) (rest : List Char) :
    stripFrom .outside previous (text ++ rest) = text ++ stripFrom .outside (lastInk previous text) rest := by
  rw [stripFrom_append, after_of_not_isQuote fun c hc => (h c hc).1]
  intro front back heq _
  exact absurd rfl (h '(' (by rw [heq]; simp)).2

theorem strips_plain {text : List Char} {last : Char} (h : ∀ c ∈ text, isQuote c = false ∧ c ≠ '(')
    (hlast : text.getLast? = some last) (hname : isIdentifierPart last = true) : StripsTo text text := by
  intro previous rest _
  refine ⟨some last, by simp [endsCallee, hname], ?_⟩
  have hink : lastInk previous text = some last := by
    obtain ⟨front, rfl⟩ := List.getLast?_eq_some_iff.1 hlast
    rw [lastInk, List.foldl_append]
    simp [not_isBlank_of_isIdentifierPart hname]
  rw [stripFrom_plain h, hink]

theorem strips_name {dot name : List Char} (hdot : IsDot dot) (hne : name ≠ [])
    (hname : ∀ c ∈ name, isIdentifierPart c = true) : StripsTo (dot ++ name) (dot ++ name) := by
  have hplain : ∀ c ∈ dot ++ name, isQuote c = false ∧ c ≠ '(' := by
    intro c hc
    rcases List.mem_append.1 hc with hc | hc
    · have hdots : ∀ d ∈ dot, isQuote d = false ∧ d ≠ '(' := by rcases hdot with rfl | rfl <;> decide
      exact hdots c hc
    · exact not_special (not_mem_chainMarks (hname c hc))
  refine strips_plain hplain ?_ (hname _ (List.getLast_mem hne))
  rw [List.getLast?_append, List.getLast?_eq_some_getLast hne]
  rfl

/-- What is left of a text depends on what stands before it only through what may be called. -/
theorem stripFrom_congr {previous previous' : Option Char}
    (h : previous.any endsCallee = previous'.any endsCallee) : ∀ (q : Quoting) (text : List Char),
    stripFrom q previous text = stripFrom q previous' text
  | _, [] => by rw [stripFrom, stripFrom]
  | q, c :: text => by
    rw [stripFrom, stripFrom, h]
    split
    · rfl
    · split
      · rw [stripFrom_congr h _ text]
      · rfl

theorem stripFrom_quoted {mark : Char} {body : List Char} (h : QuotedBody mark body) :
    ∀ (previous : Option Char) (rest : List Char), stripFrom (.between mark) previous (body ++ rest) =
      body ++ stripFrom (.between mark) (lastInk previous body) rest := by
  induction h with
  | nil => intro previous rest; rfl
  | plain hm hb _ ih =>
    intro previous rest
    rw [List.cons_append, stripFrom, if_neg (by simp), next_between hm hb, ih]
    rfl
  | @escaped c body _ ih =>
    intro previous rest
    have hnext : Quoting.next (Quoting.next (.between mark) '\\') c = .between mark := rfl
    rw [List.cons_append, List.cons_append, stripFrom, if_neg (by simp), stripFrom,
      if_neg (by simp [Quoting.next]), hnext, ih]
    rfl

/-- **A closed text is stripped of the arguments in it** whatever comes behind it, and what is left of
it is closed. -/
theorem Closed.strips {text : List Char} (h : Closed text) : ∀ previous : Option Char,
    Closed (stripFrom .outside previous text) ∧ ∃ previous', ∀ rest,
      stripFrom .outside previous (text ++ rest) =
        stripFrom .outside previous text ++ stripFrom .outside previous' rest := by
  suffices hbare : ∀ previous : Option Char, ∃ bare previous', Closed bare ∧ ∀ rest,
      stripFrom .outside previous (text ++ rest) = bare ++ stripFrom .outside previous' rest by
    intro previous
    obtain ⟨bare, previous', hclosed, hrest⟩ := hbare previous
    have hwhole := hrest []
    rw [List.append_nil, stripFrom, List.append_nil] at hwhole
    exact hwhole ▸ ⟨hclosed, previous', hrest⟩
  induction h with
  | nil => exact fun previous => ⟨[], previous, .nil, fun rest => rfl⟩
  | @plain c text hq ho hc _ ih =>
    intro previous
    obtain ⟨bare, previous', hclosed, hrest⟩ := ih (if isBlank c then previous else some c)
    have hround : c ≠ '(' := by rintro rfl; cases ho
    refine ⟨c :: bare, previous', .plain hq ho hc hclosed, fun rest => ?_⟩
    rw [List.cons_append, stripFrom, if_neg (by simp [hround]), next_outside hq, hrest, List.cons_append]
  | @quoted mark body text hq hbody _ ih =>
    intro previous
    have hround : mark ≠ '(' := by rintro rfl; cases hq
    let behind (previous : Option Char) := if isBlank mark then previous else some mark
    obtain ⟨bare, previous', hclosed, hrest⟩ := ih (behind (lastInk (behind previous) body))
    refine ⟨mark :: (body ++ mark :: bare), previous', .quoted hq hbody hclosed, fun rest => ?_⟩
    rw [List.cons_append, stripFrom, if_neg (by simp [hround]), next_quote hq, List.append_assoc,
      stripFrom_quoted hbody, List.cons_append, stripFrom, if_neg (by simp),
      next_mark (isQuote_ne_backslash hq), hrest, List.cons_append, List.append_assoc, List.cons_append]
  | @group opening closing inner text hpair hinner _ ihinner ih =>
    intro previous
    have hplain : closing ≠ '(' ∧ isBlank opening = false ∧ isBlank closing = false := by cases hpair <;> decide
    obtain ⟨hopen, hclose⟩ := hpair.not_isQuote
    by_cases hcall : opening = '(' ∧ previous.any endsCallee = true
    · obtain ⟨rfl, hp⟩ := hcall
      obtain rfl : closing = ')' := by cases hpair; rfl
      obtain ⟨bare, previous', hclosed, hrest⟩ := ih (some ')')
      refine ⟨'(' :: ([] ++ ')' :: bare), previous', .group .round .nil hclosed, fun rest => ?_⟩
      rw [List.cons_append, stripFrom, if_pos ⟨rfl, rfl, hp⟩, List.append_assoc, skipArguments_closed hinner,
        List.cons_append, skipArguments, if_neg (by simp [isOpening]), if_pos ⟨rfl, rfl⟩,
        if_pos (Nat.le_refl _), hrest]
      rfl
    · obtain ⟨bareInner, inside, hinnerClosed, hinnerRest⟩ := ihinner (some opening)
      obtain ⟨bare, previous', hclosed, hrest⟩ := ih (some closing)
      refine ⟨opening :: (bareInner ++ closing :: bare), previous', .group hpair hinnerClosed hclosed, fun rest => ?_⟩
      rw [List.cons_append, stripFrom, if_neg (by simpa using hcall), next_outside hopen, List.append_assoc,
        hplain.2.1, if_neg Bool.false_ne_true, hinnerRest, List.cons_append, stripFrom,
        if_neg (by simp [hplain.1]), next_outside hclose, hplain.2.2, if_neg Bool.false_ne_true, hrest,
        List.cons_append, List.append_assoc, List.cons_append]

theorem Closed.withoutArguments {text : List Char} (h : Closed text) : Closed (withoutArguments text) :=
  (h.strips none).1

theorem lastInk_blanks (previous : Option Char) : ∀ {space : List Char}, (∀ c ∈ space, isBlank c = true) →
    lastInk previous space = previous
  | [], _ => rfl
  | c :: space, h => by
    rw [lastInk, List.foldl_cons, if_pos (h c List.mem_cons_self)]
    exact lastInk_blanks previous fun d hd => h d (List.mem_cons_of_mem _ hd)

theorem strips_blanks {space : List Char} (h : ∀ c ∈ space, isBlank c = true) : StripsTo space space :=
  fun previous rest hp => ⟨previous, hp, by
    rw [stripFrom_plain fun c hc => not_special (not_mem_chainMarks_of_isBlank (h c hc)), lastInk_blanks previous h]⟩

theorem strips_brackets {mark text : List Char} (hmark : mark = [] ∨ mark = ['?', '.']) (h : Closed text) :
    StripsTo (mark ++ '[' :: (text ++ [']'])) (mark ++ '[' :: (withoutArguments text ++ [']'])) := by
  intro previous rest _
  refine ⟨some ']', rfl, ?_⟩
  have hopen : ∀ c ∈ mark ++ ['['], isQuote c = false ∧ c ≠ '(' := by rcases hmark with rfl | rfl <;> decide
  have hink : lastInk previous (mark ++ ['[']) = some '[' := by rcases hmark with rfl | rfl <;> rfl
  obtain ⟨-, previous', hrest⟩ := h.strips (some '[')
  have hbracket : Option.any endsCallee (some '[') = Option.any endsCallee none := by
    simp [endsCallee, isIdentifierPart_chainMarks '[' (by decide)]
  have hsplit : mark ++ '[' :: (text ++ [']']) ++ rest = (mark ++ ['[']) ++ (text ++ (']' :: rest)) := by simp
  rw [hsplit, stripFrom_plain hopen, hink, hrest, stripFrom_congr hbracket .outside text, stripFrom,
    if_neg (by simp)]
  simp [withoutArguments, Quoting.next, isQuote, isBlank]

namespace Placed

variable {p : Placed}

theorem IsWritten.bare (h : p.IsWritten) : p.bare.IsWritten := by
  obtain ⟨link, optional, space⟩ := p
  cases link with
  | member name => exact h
  | index text => exact ⟨Closed.withoutArguments h.link, h.blank, h.marked⟩
  | call args => exact ⟨.nil, h.blank, h.marked⟩

theorem IsWritten.strips (h : p.IsWritten) (hplain : p.isOptionalCall = false) : StripsTo p.text p.bare.text := by
  obtain ⟨link, optional, space⟩ := p
  refine (strips_blanks h.blank).append ?_
  cases link with
  | member name =>
    exact strips_name (Link.isDot_mark optional name) h.link.1 h.link.2
  | index text => exact strips_brackets (Link.mark_index optional text) h.link
  | call args =>
    cases optional with
    | true => cases hplain
    | false => exact strips_arguments h.link

end Placed

/-- **Links are stripped of their arguments**, unless a call is optional. -/
theorem strips_placedText : ∀ {placed : List Placed}, (∀ p ∈ placed, p.IsWritten) →
    (∀ p ∈ placed, p.isOptionalCall = false) →
    StripsTo (placedText placed) (placedText (placed.map Placed.bare))
  | [], _, _ => .nil
  | p :: _, h, hplain => ((h p List.mem_cons_self).strips (hplain p List.mem_cons_self)).append
      (strips_placedText (fun q hq => h q (List.mem_cons_of_mem _ hq))
        fun q hq => hplain q (List.mem_cons_of_mem _ hq))

end Typeahead
