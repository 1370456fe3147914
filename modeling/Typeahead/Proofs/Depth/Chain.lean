/-
# Chains without end

The members `a.b.b` are parsed by a loop that counts no depth, and each makes the tree higher by
one. So there is no bound on how high a tree gets.

Key definitions: `chainText`, `ParserState.AtChain`, `Climbs`.
Key theorems: `suffixes_members`, `climbs_assignment`, `not_heightWithin`.
-/
import Typeahead.Proofs.Depth.Script
import Typeahead.Proofs.Layout.Script

namespace Typeahead

open Text Parse Grammar Node

/-! ### The tokens of a chain -/

/-- So many members: `.b.b`. -/
def membersText : (links : Nat) → List Char
  | 0 => []
  | links + 1 => '.' :: 'b' :: membersText links

/-- A name and so many members: `a.b.b`. -/
def chainText (links : Nat) : List Char := 'a' :: membersText links

/-- The kinds of the tokens of so many members, and the end of the input. -/
def membersKinds : (links : Nat) → List TokenKind
  | 0 => [.endOfInput]
  | links + 1 => .punct .dot :: .identifier :: membersKinds links

/-- The kind of the token that a text begins with, and those of the rest. -/
theorem kinds_scanFrom_cons {c : Char} {rest : List Char} (hblank : isBlank c = false)
    (hcomment : startsComment (c :: rest) = false) (offset : Nat) : ∃ offset',
    (scanFrom false offset (c :: rest)).map (·.kind) = (Lexeme.read false c rest).kind ::
      (scanFrom false offset' (rest.drop (Lexeme.read false c rest).extra)).map (·.kind) := by
  have hskip : triviaLength false (c :: rest) = 0 := by
    have htake : (c :: rest).takeWhile isBlank = [] := by rw [List.takeWhile_cons, if_neg (by simp [hblank])]
    rw [triviaLength]
    simp [htake, hcomment]
  rw [scanFrom]
  split
  · next h => simp [hskip] at h
  · next h =>
    rw [hskip, List.drop_zero] at h
    obtain ⟨rfl, rfl⟩ := List.cons.inj h
    exact ⟨_, rfl⟩

theorem takeWhile_membersText (links : Nat) : (membersText links).takeWhile isIdentifierPart = [] := by
  cases links with
  | zero => rfl
  | succ links =>
    have hdot : isIdentifierPart '.' = false := by decide +kernel
    rw [membersText, List.takeWhile_cons, if_neg (by simp [hdot])]

/-- A dot before a name is a token of its own. -/
theorem read_dot (rest : List Char) : Lexeme.read false '.' ('b' :: rest) = ⟨.punct .dot, 0, false⟩ := by
  have hstart : isIdentifierStart '.' = false := by decide +kernel
  have hmark : Punctuator.at? ('.' :: 'b' :: rest) = some .dot := by rfl
  have hlength : Punctuator.dot.chars.length - 1 = 0 := by decide
  simp [Lexeme.read, hstart, hmark, hlength]

/-- A name before members ends at the dot. -/
theorem read_name {c : Char} (hc : c = 'a' ∨ c = 'b') (links : Nat) :
    Lexeme.read false c (membersText links) = ⟨.identifier, 0, false⟩ := by
  have hstart : isIdentifierStart 'a' = true ∧ isIdentifierStart 'b' = true := by decide +kernel
  have hword : TokenKind.ofWord (String.ofList ['a']) = .identifier ∧
    TokenKind.ofWord (String.ofList ['b']) = .identifier := by decide +kernel
  rcases hc with rfl | rfl <;>
    simp [Lexeme.read, hstart, hword, takeWhile_membersText]

theorem startsComment_ne {c : Char} (h : c ≠ '/') (rest : List Char) : startsComment (c :: rest) = false := by
  rw [startsComment.eq_def]
  split <;> simp_all

theorem kinds_name {c : Char} (hc : c = 'a' ∨ c = 'b') (links offset : Nat) : ∃ offset',
    (scanFrom false offset (c :: membersText links)).map (·.kind) =
      .identifier :: (scanFrom false offset' (membersText links)).map (·.kind) := by
  have hplain : isBlank c = false ∧ c ≠ '/' := by
    rcases hc with rfl | rfl <;> decide
  obtain ⟨offset', h⟩ := kinds_scanFrom_cons hplain.1 (startsComment_ne hplain.2 (membersText links)) offset
  rw [read_name hc] at h
  exact ⟨offset', h⟩

theorem kinds_membersText : ∀ links offset,
    (scanFrom false offset (membersText links)).map (·.kind) = membersKinds links
  | 0, offset => by
    have hskip : triviaLength false [] = 0 := by
      rw [triviaLength]
      simp [startsComment]
    rw [membersText, scanFrom]
    split
    · rfl
    · next h => simp [hskip] at h
  | links + 1, offset => by
    have hcomment : startsComment ('.' :: 'b' :: membersText links) = false := startsComment_ne (by decide) _
    obtain ⟨offset', h⟩ := kinds_scanFrom_cons (by decide) hcomment offset
    rw [read_dot] at h
    obtain ⟨offset'', h'⟩ := kinds_name (.inr rfl) links offset'
    rw [membersText, h, membersKinds]
    exact congrArg _ (h'.trans (congrArg _ (kinds_membersText links offset'')))

/-- The stream is at so many members, with the end of the input behind them. -/
inductive TokenStream.Members : Nat → TokenStream → Prop where
  | none {s : TokenStream} : s.kind = .endOfInput → Members 0 s
  | more {links : Nat} {s : TokenStream} : s.kind = .punct .dot → s.advance.kind = .identifier →
      Members links s.advance.advance → Members (links + 1) s

/-- The kinds of the tokens ahead. -/
def ParserState.kindsAhead (s : ParserState) : List TokenKind :=
  (s.stream.tokens.toList.drop s.position).map (·.kind)

variable {s t : ParserState} {g : Grammar}

theorem ParserState.Sound.kind_of_ahead {kind : TokenKind} {rest : List TokenKind} (hs : s.Sound)
    (h : s.kindsAhead = kind :: rest) : s.kind = kind := by
  obtain ⟨_, _, hahead, rfl, -⟩ := List.map_eq_cons_iff.1 h
  exact congrArg Token.kind (hs.current_of_ahead hahead)

theorem ParserState.Sound.ahead_of_advance {kind : TokenKind} {rest : List TokenKind} (hs : s.Sound)
    (h : s.kindsAhead = kind :: rest) (hk : kind ≠ .endOfInput) : s.advance.kindsAhead = rest := by
  have hs' : s.kind ≠ .endOfInput := by rwa [hs.kind_of_ahead h]
  obtain ⟨_, _, hahead, -, rfl⟩ := List.map_eq_cons_iff.1 h
  exact congrArg (List.map _) (hs.ahead_advance hs' hahead)

theorem ParserState.Sound.members : ∀ {links : Nat} {s : ParserState}, s.Sound →
    s.kindsAhead = membersKinds links → s.stream.Members links
  | 0, _, hs, h => .none (hs.kind_of_ahead h)
  | links + 1, s, hs, h => by
    have hdot := hs.ahead_of_advance h (by simp)
    have hsound := hs.follows s.follows_advance
    exact .more (hs.kind_of_ahead h) (hsound.kind_of_ahead hdot)
      (members (hsound.follows s.advance.follows_advance) (hsound.ahead_of_advance hdot (by simp)))

/-! ### The parse of a chain -/

/-- The name of a member is read. -/
theorem memberName_of_identifier (h : s.kind = .identifier) : ∃ name, memberName s = .ok name s.advance := by
  have hhash : nextMark .hash s = .ok false s := nextMark_of_false (by rw [ParserState.atMark, h]; rfl)
  have hany : anyWord s = .ok s.current.text s.advance := by
    rw [anyWord, h]
    rfl
  refine ⟨⟨⟨s.offset, max s.advance.lastStop s.offset⟩, .identifier s.current.text⟩, ?_⟩
  rw [memberName, run_offset, bind_of_ok hhash, if_neg Bool.false_ne_true, bind_of_ok hany]
  rfl

/-- The loop reads one member after the other, each a link above the one before it. -/
theorem suffixes_members {start : Nat} : ∀ {links rounds : Nat} {s : ParserState} (n : Node),
    s.stream.Members links → links < rounds →
      ∃ n' t, suffixes g start rounds n s = .ok n' t ∧ t.kind = .endOfInput ∧ n'.Descends 0 links n
  | 0, rounds + 1, s, n, .none h, _ => by
    have hk : s.kind = .endOfInput := h
    refine ⟨n, s, ?_, hk, .self n⟩
    rw [suffixes, get_run]
    simp only [hk]
    rfl
  | links + 1, rounds + 1, s, n, .more hdot hname hrest, hlt => by
    have hk : s.kind = .punct .dot := hdot
    obtain ⟨name, hread⟩ := memberName_of_identifier (s := s.advance) hname
    have hmore : s.advance.advance.stream.Members links := hrest
    -- the rest of the loop starts from the member that is made here
    obtain ⟨n', t, hrun, hend, hdown⟩ := suffixes_members
      ⟨⟨start, max s.advance.advance.lastStop start⟩, .member n name false false⟩ hmore
      (Nat.lt_of_succ_lt_succ hlt)
    refine ⟨n', t, ?_, hend, hdown.trans (.link List.mem_cons_self (.self n))⟩
    rw [suffixes, get_run]
    simp only [hk]
    rw [run_next, bind_of_ok hread]
    exact hrun

section

variable {links : Nat}

/-- A name that no arrow follows is an expression by itself. -/
theorem primary_of_identifier (h : s.kind = .identifier) (harrow : isArrow s.following = false) :
    ∃ n, primary g s = .ok n s.advance ∧ n.isArrowFunction = false := by
  have hname : s.atBindingName = true := by rw [ParserState.atBindingName, h]; rfl
  exact ⟨_, (primary_eq_namePrimary hname (by simp [h])).trans (namePrimary_of_not_arrow harrow), rfl⟩

/-- A name with so many members behind it, and nothing else. -/
structure ParserState.AtChain (links : Nat) (s : ParserState) : Prop where
  name : s.kind = .identifier
  members : s.advance.stream.Members links
  enough : links < s.rounds

/-- So far from the greatest depth the parse reads all the chain it is at, as a tree through which
its links lead down. -/
def Climbs (links free : Nat) (x : Parse Node) : Prop :=
  ∀ s : ParserState, s.AtChain links → s.depth + free ≤ maxParseDepth →
    ∃ n t m, x s = .ok n t ∧ t.kind = .endOfInput ∧ n.Descends 0 links m

namespace Climbs

variable {free : Nat} {x : Parse Node}

/-- What follows does nothing at the end of the input. -/
theorem bind {f : Node → Parse Node} (hx : Climbs links free x)
    (hf : ∀ n t, t.kind = .endOfInput → f n t = .ok n t) : Climbs links free (x >>= f) := by
  intro s hs hd
  obtain ⟨n, t, m, hrun, hend, hdown⟩ := hx s hs hd
  exact ⟨n, t, m, (bind_of_ok hrun).trans (hf n t hend), hend, hdown⟩

theorem look {f : ParserState → Parse Node} (hf : ∀ s, s.AtChain links → Climbs links free (f s)) :
    Climbs links free (get >>= f) :=
  fun s hs hd => hf s hs s hs hd

theorem nested (hx : Climbs links free x) : Climbs links (free + 1) (nested x) := by
  intro s hs hd
  obtain ⟨n, t, m, hrun, hend, hdown⟩ := hx { s with depth := s.depth + 1 } ⟨hs.name, hs.members, hs.enough⟩
    (Nat.le_trans (Nat.le_of_eq (Nat.add_right_comm ..)) hd)
  exact ⟨n, _, m, nested_of_ok (by omega) hrun, hend, hdown⟩

end Climbs

theorem climbs_leftHandSide : Climbs links 0 (leftHandSide g) := by
  intro s hs _
  have hnext : s.advance.kind = .endOfInput ∨ s.advance.kind = .punct .dot := by
    cases hs.members with
    | none h => exact .inl h
    | more h => exact .inr h
  have harrow : isArrow s.following = false := by
    rw [isArrow, ← s.current_advance]
    rcases hnext with h | h <;> rw [ParserState.kind] at h <;> rw [h] <;> rfl
  obtain ⟨n, hn, hplain⟩ := primary_of_identifier (g := g) hs.name harrow
  obtain ⟨n', t, hrun, hend, hdown⟩ := suffixes_members (g := g) n hs.members hs.enough
  refine ⟨n', t, n, ?_, hend, hdown⟩
  have hnew : s.atKeyword .newWord = false := by rw [ParserState.atKeyword, hs.name]; rfl
  rw [leftHandSide, get_run, hnew, if_neg Bool.false_ne_true, bind_of_ok hn]
  dsimp only
  rw [hplain, if_neg Bool.false_ne_true]
  exact hrun

theorem climbs_unary : Climbs links 1 (unary g) := by
  refine .nested (.look fun s hs => ?_)
  have hname : s.current.kind = .identifier := hs.name
  have hoperator : unaryOperator? s.current = none := by rw [unaryOperator?, hname]
  have hupdate : isUpdateOperator s.kind = false := by rw [hs.name]; rfl
  simp only [hoperator, hupdate, Bool.false_eq_true, ↓reduceIte]
  refine climbs_leftHandSide.bind fun n t ht => ?_
  have hend : t.current.kind = .endOfInput := ht
  rw [get_run]
  simp only [hend]
  rfl

theorem climbs_assignment : Climbs links 2 (assignment g) := by
  have hbinary : Climbs links 1 (binary g 1) :=
    .look fun s _ => climbs_unary.bind fun _ _ ht => binaryTail_of_end ht
  have hconditional : Climbs links 1 (conditional g) := by
    refine .look fun s _ => hbinary.bind fun n t ht => ?_
    rw [bind_of_ok (nextMark_of_false (t.atMark_of_end ht .question))]
    rfl
  refine .nested (.look fun s _ => hconditional.bind fun n t ht => ?_)
  rw [get_run]
  simp only [ht]
  rfl

end

theorem length_membersKinds : ∀ links, links < (membersKinds links).length
  | 0 => Nat.zero_lt_one
  | links + 1 => by
    have := length_membersKinds links
    simp only [membersKinds, List.length_cons]
    omega

theorem atChain_chainText (links : Nat) : (ParserState.ofText (chainText links)).AtChain links := by
  have hs : (ParserState.ofText (chainText links)).Sound := sound_startOf (chainText links) false true
  have htokens : (ParserState.ofText (chainText links)).stream.tokens = (tokenize (chainText links)).toArray :=
    tokens_ofText _
  obtain ⟨offset, hscan⟩ := kinds_name (.inl rfl) links 0
  have hkinds : (tokenize (chainText links)).map (·.kind) = .identifier :: membersKinds links :=
    hscan.trans (congrArg _ (kinds_membersText links offset))
  have hahead : (ParserState.ofText (chainText links)).kindsAhead = .identifier :: membersKinds links := by
    rw [ParserState.kindsAhead, htokens, ← hkinds]
    have hposition : (ParserState.ofText (chainText links)).position = 0 := position_ofText _
    rw [hposition, List.drop_zero]
  refine ⟨hs.kind_of_ahead hahead, (hs.follows (ParserState.follows_advance _)).members
    (hs.ahead_of_advance hahead (by simp)), ?_⟩
  have hlength := congrArg List.length hkinds
  have := length_membersKinds links
  rw [List.length_map, List.length_cons] at hlength
  rw [ParserState.rounds, htokens, List.size_toArray]
  omega

/-- **The height of a tree is not bounded**: however great the bound, some text is parsed as a tree
that is higher. -/
theorem not_heightWithin : ¬ ∃ bound, ∀ text n,
    ParsedStrictly text n ∨ (parseDocument text).1 = n → n.HeightWithin bound := by
  rintro ⟨bound, h⟩
  have hdeep : (0 : Nat) + 2 ≤ maxParseDepth := by decide
  obtain ⟨n, t, m, hrun, -, hdown⟩ := climbs_assignment
    (g := parseLevel (ParserState.ofText (chainText (bound + 1))).rounds) _ (atChain_chainText _) hdeep
  have hparse : parseExpression (chainText (bound + 1)) = .ok n := by
    have hlevels : parse .assignment (.ofText (chainText (bound + 1))) = .ok n t := hrun
    rw [parseExpression, Parse.result, hlevels]
  have hle := h (chainText (bound + 1)) n (.inl (.expression hparse)) 0 (bound + 1) m hdown
  omega

end Typeahead
