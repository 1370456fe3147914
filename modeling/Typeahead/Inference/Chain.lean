/-
# Access chains

The text in front of the cursor is read as a head and steps from it: members,
indexes and calls. It need not be a whole expression. The arguments of calls are
left out first; a `.` or `?.` at the end, where a member is about to be written, does
not count.

Key definitions: `ChainStep`, `AccessChain`, `withoutArguments`, `AccessChain.ofText?`.
-/
import Typeahead.Text.Blank
import Typeahead.Text.Identifier
import Typeahead.Text.Quoting

namespace Typeahead

open Text

/-- A step of a chain: `.name`, which may be called on the spot, `[text]`, or a call of
what comes before. -/
inductive ChainStep where
  | member (name : String) (called : Bool)
  | index (text : String)
  | call
  deriving DecidableEq, Repr, Inhabited

/-- A head, and the steps from it. -/
structure AccessChain where
  head : String
  steps : List ChainStep
  deriving DecidableEq, Repr, Inhabited

/-- The head is a name. -/
def AccessChain.headIsIdentifier (chain : AccessChain) : Bool := isIdentifier chain.head.toList

namespace Chain

/-- A parenthesis after this character opens the arguments of a call. -/
def endsCallee (c : Char) : Bool := isIdentifierPart c || c == ')' || c == ']'

mutual
/-- A text without the arguments of its calls. `previous` is the last character before
it that is no blank. -/
def stripFrom (q : Quoting) (previous : Option Char) : List Char → List Char
  | [] => []
  | c :: rest =>
    if q = .outside ∧ c = '(' ∧ previous.any endsCallee then '(' :: ')' :: skipArguments .outside 1 rest
    else c :: stripFrom (q.next c) (if isBlank c then previous else some c) rest

/-- What follows the bracket that closes `depth` open ones, without the arguments of
its calls. -/
def skipArguments (q : Quoting) (depth : Nat) : List Char → List Char
  | [] => []
  | c :: rest =>
    if q = .outside ∧ isOpening c then skipArguments q (depth + 1) rest
    else if q = .outside ∧ isClosing c then
      if depth ≤ 1 then stripFrom q (some ')') rest else skipArguments q (depth - 1) rest
    else skipArguments (q.next c) depth rest
end

/-- How many brackets are open after a character. -/
def depthAfter (depth : Nat) (c : Char) : Nat :=
  if isOpening c then depth + 1 else if isClosing c then depth - 1 else depth

/-- A head ends before this character: before `[` unless it comes first, before `.`
unless it parts the digits of a number, and before `?.`. `onlyDigits` tells that
nothing but digits comes before, and `first` that nothing does. -/
def endsHead (first onlyDigits : Bool) (c : Char) (rest : List Char) : Bool :=
  match c with
  | '[' => !first
  | '.' => !(!first && onlyDigits && rest.head?.any Char.isDigit)
  | '?' => rest.head? == some '.'
  | _ => false

/-- The length of the head that a text begins with. -/
def headLength (q : Quoting) (depth : Nat) (first onlyDigits : Bool) : List Char → Nat
  | [] => 0
  | c :: rest =>
    if q = .outside ∧ depth = 0 ∧ endsHead first onlyDigits c rest then 0
    else
      let depth := if q = .outside then depthAfter depth c else depth
      1 + headLength (q.next c) depth false (onlyDigits && c.isDigit) rest

/-- The length of what stands before the `]` that closes `depth` open ones. -/
def indexLength? (q : Quoting) (depth : Nat) : List Char → Option Nat
  | [] => none
  | c :: rest =>
    if q = .outside ∧ c = ']' then
      if depth ≤ 1 then some 0 else (indexLength? q (depth - 1) rest).map (· + 1)
    else if q = .outside ∧ c = '[' then (indexLength? q (depth + 1) rest).map (· + 1)
    else (indexLength? (q.next c) depth rest).map (· + 1)

/-- How many times `()` comes first. -/
def callCount : List Char → Nat
  | '(' :: ')' :: rest => callCount rest + 1
  | _ => 0

/-- The calls at the end of a head, counted, and what comes before them, both read
from the end. Something always comes before them. -/
def trailingCalls : List Char → Nat × List Char
  | ')' :: '(' :: before =>
    let before' := before.dropWhile isBlank
    if before'.isEmpty then (0, ')' :: '(' :: before)
    else
      let (count, callee) := trailingCalls before'
      (count + 1, callee)
  | text => (0, text)
termination_by text => text.length
decreasing_by
  have := (List.dropWhile_sublist (l := before) isBlank).length_le
  simp only [List.length_cons]
  omega

/-- The head without the calls at its end, and their number. The call of `new` belongs
to the head. -/
def splitCalls (head : List Char) : List Char × Nat :=
  if "new ".toList.isPrefixOf head then (head, 0)
  else
    let (count, callee) := trailingCalls head.reverse
    (callee.reverse, count)

/-- The steps that a text begins with and the length of what they are read from. -/
def stepAt? : List Char → Option (List ChainStep × Nat)
  | '.' :: rest =>
    let name := rest.takeWhile isIdentifierPart
    let calls := callCount (rest.drop name.length)
    if name.isEmpty then none
    else some (.member (String.ofList name) (0 < calls) :: List.replicate (calls - 1) .call,
      1 + name.length + 2 * calls)
  | '?' :: '.' :: '[' :: _ => some ([], 2)
  | '?' :: '.' :: _ => some ([], 1)
  | '[' :: rest =>
    (indexLength? .outside 1 rest).map fun length =>
      ([.index (String.ofList (trim (rest.take length)))], length + 2)
  | '(' :: ')' :: _ => some ([.call], 2)
  | c :: _ => if isBlank c then some ([], 1) else none
  | [] => none

/-- A step is read from at least one character. -/
theorem stepAt?_pos {text : List Char} {steps : List ChainStep} {length : Nat}
    (h : stepAt? text = some (steps, length)) : 0 < length := by
  unfold stepAt? at h
  split at h
  · dsimp only at h
    split at h
    · simp at h
    · simp only [Option.some.injEq, Prod.mk.injEq] at h; omega
  · simp only [Option.some.injEq, Prod.mk.injEq] at h; omega
  · simp only [Option.some.injEq, Prod.mk.injEq] at h; omega
  · simp only [Option.map_eq_some_iff, Prod.mk.injEq] at h
    obtain ⟨n, -, -, rfl⟩ := h
    omega
  · simp only [Option.some.injEq, Prod.mk.injEq] at h; omega
  · split at h
    · simp only [Option.some.injEq, Prod.mk.injEq] at h; omega
    · simp at h
  · simp at h

/-- How many steps a chain may have. -/
def stepLimit : Nat := 64

/-- All steps of a text after `count` others, unless one cannot be read or there are
too many. -/
def stepsFrom? (count : Nat) (text : List Char) : Option (List ChainStep) :=
  match text with
  | [] => some []
  | c :: rest =>
    match _h : stepAt? (c :: rest) with
    | none => none
    | some (found, length) =>
      let count := count + found.length
      if stepLimit < count then none
      else (stepsFrom? count ((c :: rest).drop length)).map (found ++ ·)
termination_by text.length
decreasing_by
  have := stepAt?_pos _h
  simp only [List.length_drop, List.length_cons]
  omega

/-- A text without a `.` or `?.` at its end and without the blanks before that. -/
def withoutSeparator (text : List Char) : List Char :=
  trimEnd <|
    match text.reverse with
    | '.' :: '?' :: before => before.reverse
    | '.' :: before => before.reverse
    | _ => text

end Chain

/-- A text without the arguments of its calls. A parenthesis opens arguments if it
follows a name, `)` or `]`. -/
def withoutArguments (text : List Char) : List Char := Chain.stripFrom .outside none text

/-- The chain that a text is, if it has a head and not too many steps. -/
def AccessChain.ofText? (text : List Char) : Option AccessChain :=
  let text := Chain.withoutSeparator (withoutArguments (trim text))
  let length := Chain.headLength .outside 0 true true text
  let head := trim (text.take length)
  if head.isEmpty then none
  else
    let (callee, calls) := Chain.splitCalls head
    (Chain.stepsFrom? calls (text.drop length)).map fun steps =>
      ⟨String.ofList callee, List.replicate calls .call ++ steps⟩

end Typeahead
