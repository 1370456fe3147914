/-
# Chains as they are written

An access chain is written as its head and the texts of its steps. The arguments of calls and
the texts of indexes may be any text in which brackets are matched and strings closed; a
scanner that counts brackets passes such a text as if it were not there, whichever way it
reads.

Key definitions: `QuotedBody`, `Balanced`, `Closed`, `IndexText`, `StepText`, `StepsText`,
`AccessChain.WrittenAs`.
-/
import Mathlib.Tactic.Common
import Typeahead.Inference.Chain
import Typeahead.Inference.Extract

namespace Typeahead

open Text Chain

/-- A bracket and the one that closes it. -/
inductive BracketPair : Char → Char → Prop where
  | round : BracketPair '(' ')'
  | square : BracketPair '[' ']'
  | curly : BracketPair '\x7b' '\x7d'

/-- A text between two marks. The mark itself stands in it only behind a backslash. -/
inductive QuotedBody (mark : Char) : List Char → Prop where
  | nil : QuotedBody mark []
  | plain {c body} : c ≠ mark → c ≠ '\\' → QuotedBody mark body → QuotedBody mark (c :: body)
  | escaped {c body} : QuotedBody mark body → QuotedBody mark ('\\' :: c :: body)

/-- A text in which brackets are matched and strings closed, with no backslash outside of
strings. -/
inductive Balanced : List Char → Prop where
  | nil : Balanced []
  | plain {c text} : isQuote c = false → isOpening c = false → isClosing c = false → c ≠ '\\' →
      Balanced text → Balanced (c :: text)
  | quoted {mark body text} : isQuote mark = true → QuotedBody mark body → Balanced text →
      Balanced (mark :: (body ++ mark :: text))
  | group {opening closing inner text} : BracketPair opening closing → Balanced inner → Balanced text →
      Balanced (opening :: (inner ++ closing :: text))

/-- A text in which brackets are matched and strings closed. -/
inductive Closed : List Char → Prop where
  | nil : Closed []
  | plain {c text} : isQuote c = false → isOpening c = false → isClosing c = false → Closed text →
      Closed (c :: text)
  | quoted {mark body text} : isQuote mark = true → QuotedBody mark body → Closed text →
      Closed (mark :: (body ++ mark :: text))
  | group {opening closing inner text} : BracketPair opening closing → Closed inner → Closed text →
      Closed (opening :: (inner ++ closing :: text))

theorem Balanced.closed {text : List Char} (h : Balanced text) : Closed text := by
  induction h with
  | nil => exact .nil
  | plain hq ho hc _ _ ih => exact .plain hq ho hc ih
  | quoted hq hbody _ ih => exact .quoted hq hbody ih
  | group hpair _ _ ihinner ih => exact .group hpair ihinner ih

/-- What may be written between the brackets of an index: nothing in it looks like the
arguments of a call. -/
structure IndexText (text : List Char) : Prop where
  balanced : Balanced text
  trimmed : trim text = text
  noCall : ∀ front back, text = front ++ '(' :: back → Quoting.outside.after front = .outside →
    (trimEnd front).getLast?.any endsCallee = false

/-- What parts a name from the step before it. -/
def IsDot (text : List Char) : Prop := text = ['.'] ∨ text = ['?', '.']

/-- How a step is written, with arguments of a kind. -/
inductive StepText (Args : List Char → Prop) : ChainStep → List Char → Prop where
  | member {dot name} : IsDot dot → name ≠ [] → (∀ c ∈ name, isIdentifierPart c = true) →
      StepText Args (.member (String.ofList name) false) (dot ++ name)
  | method {dot name args} : IsDot dot → name ≠ [] → (∀ c ∈ name, isIdentifierPart c = true) → Args args →
      StepText Args (.member (String.ofList name) true) (dot ++ (name ++ '(' :: (args ++ [')'])))
  | index {dot text} : dot = [] ∨ dot = ['?', '.'] → IndexText text →
      StepText Args (.index (String.ofList text)) (dot ++ '[' :: (text ++ [']']))
  | call {args} : Args args → StepText Args .call ('(' :: (args ++ [')']))

/-- How steps are written, one after the other. -/
inductive StepsText (Args : List Char → Prop) : List ChainStep → List Char → Prop where
  | nil : StepsText Args [] []
  | cons {step steps text texts} : StepText Args step text → StepsText Args steps texts →
      StepsText Args (step :: steps) (text ++ texts)

/-- No call follows a member that is not called: it would be written as a call of the member. -/
def CallsApart (steps : List ChainStep) : Prop :=
  steps.IsChain fun step later => later = .call → ∀ name, step ≠ .member name false

/-- A text is a chain as it is written. -/
structure AccessChain.WrittenAs (chain : AccessChain) (text : List Char) : Prop where
  head : isIdentifier chain.head.toList = true
  notNew : chain.head ≠ "new"
  atMost : chain.steps.length ≤ stepLimit
  callsApart : CallsApart chain.steps
  spelled : ∃ steps, StepsText Balanced chain.steps steps ∧ text = chain.head.toList ++ steps

/-! ### Characters -/

/-- The code points of the blanks. -/
def blankCodes : List Nat :=
  List.range' 9 5 ++ [0x20, 0x85, 0xa0, 0x1680] ++ List.range' 0x2000 11 ++ [0x2028, 0x2029, 0x202f, 0x205f, 0x3000]

theorem isIdentifierPart_blankCodes :
    ∀ n ∈ blankCodes, isIdentifierPart (Char.ofNat n) = false := by decide +kernel

theorem toNat_mem_blankCodes {c : Char} (h : isBlank c = true) : c.toNat ∈ blankCodes := by
  simp only [isBlank, Bool.or_eq_true, Bool.and_eq_true, decide_eq_true_eq, beq_iff_eq] at h
  simp only [blankCodes, List.mem_append, List.mem_range'_1, List.mem_cons, List.not_mem_nil]
  omega

/-- No blank is part of a name. -/
theorem not_isBlank_of_isIdentifierPart {c : Char} (h : isIdentifierPart c = true) : isBlank c = false := by
  by_contra hb
  have := isIdentifierPart_blankCodes _ (toNat_mem_blankCodes (Bool.of_not_eq_false hb))
  rw [Char.ofNat_toNat, h] at this
  cases this

/-- The marks that steps are told apart by. -/
def chainMarks : List Char := ".?()[]\x7b\x7d'\"\x60\\".toList

theorem isIdentifierPart_chainMarks : ∀ c ∈ chainMarks, isIdentifierPart c = false := by decide +kernel

theorem not_mem_chainMarks {c : Char} (h : isIdentifierPart c = true) : c ∉ chainMarks := by
  intro hc
  rw [isIdentifierPart_chainMarks c hc] at h
  cases h

theorem isBlank_chainMarks : ∀ c ∈ chainMarks, isBlank c = false := by decide

theorem not_mem_chainMarks_of_isBlank {c : Char} (h : isBlank c = true) : c ∉ chainMarks := by
  intro hc
  rw [isBlank_chainMarks c hc] at h
  cases h

theorem not_special {c : Char} (h : c ∉ chainMarks) : isQuote c = false ∧ c ≠ '(' := by
  refine ⟨?_, ?_⟩
  · by_contra hq
    simp only [isQuote, Bool.not_eq_false, Bool.or_eq_true, beq_iff_eq] at hq
    rcases hq with (rfl | rfl) | rfl <;> exact h (by decide)
  · rintro rfl
    exact h (by decide)

/-- A name has a first character, and all that it has may be in names. -/
theorem ident_of_isIdentifier {name : List Char} (h : isIdentifier name = true) :
    ∃ c rest, name = c :: rest ∧ isIdentifierStart c = true ∧ ∀ d ∈ c :: rest, isIdentifierPart d = true := by
  cases name with
  | nil => cases h
  | cons c rest =>
    rw [isIdentifier, Bool.and_eq_true, List.all_eq_true] at h
    refine ⟨c, rest, rfl, h.1, fun d hd => ?_⟩
    rcases List.mem_cons.1 hd with rfl | hd
    · exact isIdentifierPart_of_start h.1
    · exact h.2 d hd

end Typeahead
