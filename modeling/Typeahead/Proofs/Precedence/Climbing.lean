/-
# Precedence climbing

Operands joined by binary operators are parsed as the one tree of them that is grouped by precedence.

The loop over the operators reads on as long as they bind at least as tightly as it was asked for, and has
the right operand of each parsed by a loop that asks for more. Where that one stops, the next operator
binds no more tightly than the one before it: so what was read before may become its left operand. A loop
inside another takes steps off what is ahead, hence the induction on how many there are.

Key definitions: `joined`, `ParserState.Behind`, `ParserState.AtOperand`, `Gathers`, `Climbed`.
Key theorems: `Climbed.join`, `gathers_binaryTail`, `gathers_parseLevel`, `parseExpression_joined`.
-/
import Typeahead.Proofs.Layout.Script
import Typeahead.Proofs.Parse.Beside
import Typeahead.Proofs.Precedence.Tree

namespace Typeahead

open Parse Grammar

/-! ### Operations ahead -/

/-- Operators and their right operands as they stand. -/
def joined (steps : List (Token × Token)) : List Token := steps.flatMap fun step => [step.1, step.2]

theorem length_le_joined : ∀ steps, steps.length ≤ (joined steps).length
  | [] => Nat.le_refl _
  | _ :: steps => by
    have := length_le_joined steps
    simp only [joined, List.flatMap_cons, List.length_append, List.length_cons] at this ⊢
    omega

/-- The token can stand behind an operand: the end of the input or an operator. -/
def TokenKind.EndsOperand (kind : TokenKind) : Prop :=
  kind = .endOfInput ∨ (binaryPrecedence? false kind).isSome = true

/-- An operator or the end of the input does not go on with the operand before it. -/
theorem TokenKind.EndsOperand.spec {kind : TokenKind} (h : kind.EndsOperand) :
    kind ≠ .punct .openParen ∧ kind ≠ .punct .arrow ∧ isUpdateOperator kind = false := by
  rcases h with rfl | h
  · decide
  · cases kind with
    | keyword word => cases word <;> decide
    | punct mark => cases mark <;> first | decide | cases h
    | _ => cases h

theorem suffixes_of_endsOperand {g : Grammar} {s : ParserState} {start rounds : Nat} {n : Node}
    (h : s.kind.EndsOperand) : suffixes g start rounds n s = .ok n s := by
  cases rounds with
  | zero => rfl
  | succ rounds =>
    rw [suffixes, get_run]
    rcases h with h | h
    · rw [h]
      rfl
    · cases hk : s.kind with
      | keyword word => rfl
      | punct mark => rw [hk] at h; cases mark <;> first | rfl | cases h
      | _ => rw [hk] at h; cases h

namespace ParserState

/-- The state is behind an operand; ahead are operators with their right operands and the end of the input. -/
structure Behind (steps : List (Token × Token)) (s : ParserState) : Prop where
  sound : s.Sound
  noIn : s.noIn = false
  joins : ∀ step ∈ steps, step.1.isOperator = true ∧ step.2.isOperand = true
  ahead : ∃ last, s.ahead = joined steps ++ [last]

/-- The state is at an operand, and behind it are operators with their right operands. -/
structure AtOperand (first : Token) (steps : List (Token × Token)) (s : ParserState) : Prop where
  sound : s.Sound
  current : s.current = first
  operand : first.isOperand = true
  behind : s.advance.Behind steps

variable {first operator operand : Token} {steps : List (Token × Token)} {s : ParserState}

theorem Sound.atOperand (hs : s.Sound) (hnoIn : s.noIn = false) (hfirst : first.isOperand = true)
    (hsteps : ∀ step ∈ steps, step.1.isOperator = true ∧ step.2.isOperand = true) {last : Token}
    (hahead : s.ahead = first :: joined steps ++ [last]) : s.AtOperand first steps := by
  have hcurrent := hs.current_of_ahead hahead
  have hk : s.kind ≠ .endOfInput := by
    intro hend
    rw [kind, hcurrent] at hend
    rw [Token.isOperand, hend] at hfirst
    cases hfirst
  exact ⟨hs, hcurrent, hfirst, hs.follows s.follows_advance, hnoIn, hsteps, last, hs.ahead_advance hk hahead⟩

namespace Behind

theorem kind_of_nil (h : s.Behind []) : s.kind = .endOfInput := by
  obtain ⟨last, hahead⟩ := h.ahead
  have hlength := congrArg List.length hahead
  have hin := h.sound.inside
  rw [ParserState.ahead, List.length_drop, Array.length_toList] at hlength
  rw [h.sound.kind_eq_end]
  simp only [joined, List.flatMap_nil, List.nil_append, List.length_singleton] at hlength
  omega

theorem length_le_rounds (h : s.Behind steps) : steps.length ≤ s.rounds := by
  obtain ⟨last, hahead⟩ := h.ahead
  have hlength := congrArg List.length hahead
  have := length_le_joined steps
  rw [ParserState.ahead, List.length_drop, Array.length_toList, List.length_append] at hlength
  rw [rounds]
  omega

theorem current_of_cons (h : s.Behind ((operator, operand) :: steps)) : s.current = operator := by
  obtain ⟨last, hahead⟩ := h.ahead
  exact h.sound.current_of_ahead hahead

theorem endsOperand (h : s.Behind steps) : s.kind.EndsOperand := by
  cases steps with
  | nil => exact .inl h.kind_of_nil
  | cons step steps =>
    refine .inr ?_
    rw [kind, h.current_of_cons]
    exact (h.joins step List.mem_cons_self).1

theorem advance_of_cons (h : s.Behind ((operator, operand) :: steps)) : s.advance.AtOperand operand steps := by
  obtain ⟨hjoin, hsteps⟩ := List.forall_mem_cons.1 h.joins
  obtain ⟨last, hahead⟩ := h.ahead
  have hk : s.kind ≠ .endOfInput := by
    have hoperator := hjoin.1
    intro hend
    rw [kind, h.current_of_cons] at hend
    rw [Token.isOperator, hend] at hoperator
    cases hoperator
  exact (h.sound.follows s.follows_advance).atOperand h.noIn hjoin.2 hsteps (h.sound.ahead_advance hk hahead)

end Behind

theorem AtOperand.deeper (h : s.AtOperand first steps) :
    ({ s with depth := s.depth + 1 } : ParserState).AtOperand first steps where
  sound := h.sound.of_stream rfl
  current := h.current
  operand := h.operand
  behind := ⟨h.behind.sound.of_stream rfl, h.behind.noIn, h.behind.joins, h.behind.ahead⟩

end ParserState

/-! ### Climbing -/

section

variable {g : Grammar} {s : ParserState} {first : Token} {steps : List (Token × Token)}

theorem primary_of_operand (h : s.AtOperand first steps) :
    primary g s = .ok (OperatorTree.operand first).node s.advance := by
  have hoperand := h.operand
  rw [Token.isOperand, Bool.and_eq_true, bne_iff_ne, ← h.current] at hoperand
  have harrow : isArrow s.following = false := by
    obtain ⟨-, harrow, -⟩ := h.behind.endsOperand.spec
    rw [isArrow, ← s.current_advance, Bool.and_eq_false_iff, beq_eq_false_iff_ne]
    exact .inl harrow
  have hk : s.kind ≠ .endOfInput := fun hend => by
    have hname : s.kind.isBindingName = true := hoperand.1
    rw [hend] at hname
    cases hname
  have hstop : max s.advance.lastStop s.current.start = s.current.stop := by
    rw [h.sound.lastStop_advance hk]
    exact Nat.max_eq_left h.sound.offset_le_stop
  rw [primary_eq_namePrimary hoperand.1 hoperand.2, namePrimary_of_not_arrow harrow, hstop, h.current]
  rfl

/-- Nothing but its name is read of an operand. -/
theorem postfixExpression_of_operand (h : s.AtOperand first steps) {start : Nat} :
    postfixExpression g start s = .ok (OperatorTree.operand first).node s.advance := by
  have hnew : s.atKeyword .newWord = false := by
    have hoperand := h.operand
    rw [Token.isOperand, Bool.and_eq_true, ← h.current] at hoperand
    exact (beginsHead_of_name hoperand.1 h.behind.endsOperand.spec.1).notNew
  have hleft : leftHandSide g s = .ok (OperatorTree.operand first).node s.advance := by
    rw [leftHandSide, get_run, hnew, if_neg Bool.false_ne_true, bind_of_ok (primary_of_operand h)]
    exact suffixes_of_endsOperand h.behind.endsOperand
  have hupdate : isUpdateOperator s.advance.current.kind = false := h.behind.endsOperand.spec.2.2
  rw [postfixExpression, bind_of_ok hleft, get_run, hupdate]
  rfl

theorem unary_of_operand (h : s.AtOperand first steps) (hd : s.depth < maxParseDepth) :
    unary g s = .ok (OperatorTree.operand first).node s.advance := by
  have hoperand := h.operand
  rw [Token.isOperand, Bool.and_eq_true, ← h.current] at hoperand
  obtain ⟨-, -, hunary, hupdate⟩ := beginsHead_of_name hoperand.1 h.behind.endsOperand.spec.1
  refine nested_of_ok (t := ParserState.advance { s with depth := s.depth + 1 }) hd ?_
  have hunary : unaryOperator? (ParserState.current { s with depth := s.depth + 1 }) = none := hunary
  have hupdate : isUpdateOperator (ParserState.kind { s with depth := s.depth + 1 }) = false := hupdate
  rw [get_run, hunary]
  simp only [hupdate, Bool.false_eq_true, ↓reduceIte]
  exact postfixExpression_of_operand h.deeper

/-- A right operand joins what was read before. -/
theorem OperatorTree.node_join (left right : OperatorTree) (operator : Token) :
    (join left operator right).node =
      ⟨⟨left.node.start, right.node.stop⟩, binaryNode operator.kind left.node right.node⟩ := by
  rw [node, binaryNode, isLogicalOperator]
  cases operator.kind with
  | punct mark => cases mark <;> rfl
  | _ => rfl

/-- Of the steps ahead all are read up to the first operator that binds less tightly than `least`, and with
what was read before they make a tree. -/
structure Gathers (least : Nat) (read : List Token) (steps : List (Token × Token)) (depth : Nat)
    (tree : OperatorTree) (left : List (Token × Token)) (t : ParserState) : Prop where
  tokens : tree.tokens ++ joined left = read ++ joined steps
  fewer : left.length ≤ steps.length
  grouped : tree.Grouped
  tight : ∀ o ∈ tree.root?, least ≤ o.precedence
  stops : ∀ step ∈ left.head?, step.1.precedence < least
  behind : t.Behind left
  depth_eq : t.depth = depth

/-- From every operand with fewer than so many steps behind it the parse reads a tree. -/
def GathersAll (bound : Nat) (x : Parse Node) (least : Nat) : Prop :=
  ∀ {first : Token} {steps : List (Token × Token)} {s : ParserState}, steps.length < bound →
    s.AtOperand first steps → s.depth < maxParseDepth →
      ∃ tree left t, x s = .ok tree.node t ∧ Gathers least [first] steps s.depth tree left t

/-- What the loop has before a step is a tree, and the operator of the step binds no more tightly than the
right operand of the one at its top had to. -/
structure Climbed (least : Nat) (tree : OperatorTree) (steps : List (Token × Token)) : Prop where
  grouped : tree.Grouped
  tight : ∀ o ∈ tree.root?, least ≤ o.precedence
  binds : ∀ o ∈ tree.root?, ∀ step ∈ steps.head?, step.1.precedence < rightPrecedence o.kind o.precedence

theorem climbed_operand (least : Nat) (token : Token) (steps : List (Token × Token)) :
    Climbed least (.operand token) steps :=
  ⟨.operand token, by simp [OperatorTree.root?], by simp [OperatorTree.root?]⟩

/-- One step of the loop: what was read before becomes the left operand. -/
theorem Climbed.join {least depth : Nat} {operator operand : Token} {left right : OperatorTree} {read : List Token}
    {steps steps' rest : List (Token × Token)} {t : ParserState} (h : Climbed least left ((operator, operand) :: steps))
    (hleast : least ≤ operator.precedence)
    (hright : Gathers (rightPrecedence operator.kind operator.precedence) read steps' depth right rest t) :
    Climbed least (left.join operator right) rest where
  grouped := by
    refine .join h.grouped hright.grouped
      (fun o ho => Token.left_of_lt_rightPrecedence (h.binds o ho _ rfl)) fun o ho => ?_
    have htight := hright.tight o ho
    rw [rightPrecedence] at htight
    split at htight
    · rwa [if_pos ‹_›]
    · rwa [if_neg ‹_›]
  tight o ho := by
    cases ho
    exact hleast
  binds o ho step hstep := by
    cases ho
    exact hright.stops step hstep

/-- The loop joins one right operand after the other, as long as the operators bind tightly enough. -/
theorem gathers_binaryTail {bound least : Nat}
    (hg : ∀ precedence, GathersAll bound (g (.binary precedence)) precedence) :
    ∀ (rounds : Nat) {steps : List (Token × Token)} {s : ParserState} (tree : OperatorTree),
      steps.length ≤ bound → steps.length ≤ rounds → s.Behind steps → s.depth < maxParseDepth →
      Climbed least tree steps →
      ∃ tree' left t, binaryTail g tree.node.start least rounds tree.node s = .ok tree'.node t ∧
        Gathers least tree.tokens steps s.depth tree' left t
  | 0, steps, s, tree, _, hrounds, hs, _, hclimbed => by
    obtain rfl : steps = [] := List.length_eq_zero_iff.1 (Nat.le_zero.1 hrounds)
    exact ⟨tree, [], s, rfl, rfl, Nat.le_refl _, hclimbed.grouped, hclimbed.tight, by simp, hs, rfl⟩
  | rounds + 1, [], s, tree, _, _, hs, _, hclimbed => by
    refine ⟨tree, [], s, ?_, rfl, Nat.le_refl _, hclimbed.grouped, hclimbed.tight, by simp, hs, rfl⟩
    rw [binaryTail, get_run, hs.kind_of_nil]
    rfl
  | rounds + 1, (operator, operand) :: steps, s, tree, hbound, hrounds, hs, hd, hclimbed => by
    have hkind : s.kind = operator.kind := congrArg Token.kind hs.current_of_cons
    have hprecedence : binaryPrecedence? s.noIn s.kind = some operator.precedence := by
      rw [hs.noIn, hkind]
      exact operator.binaryPrecedence?_of_isOperator (hs.joins _ List.mem_cons_self).1
    rw [binaryTail, get_run, hprecedence]
    by_cases hlt : operator.precedence < least
    · -- the operator is left to the loop around this one
      simp only [hlt, ↓reduceIte]
      exact ⟨tree, _, s, rfl, rfl, Nat.le_refl _, hclimbed.grouped, hclimbed.tight, by simpa using hlt, hs, rfl⟩
    · simp only [hlt, ↓reduceIte]
      obtain ⟨right, rest, t, hright, hgathers⟩ :=
        hg (rightPrecedence operator.kind operator.precedence) (Nat.lt_of_succ_le hbound) hs.advance_of_cons hd
      have hfewer := hgathers.fewer
      have hdepth : t.depth = s.depth := hgathers.depth_eq
      rw [List.length_cons] at hbound hrounds
      obtain ⟨tree', left, u, hrun, hgathers'⟩ := gathers_binaryTail hg rounds
        (tree.join operator right) (by omega) (by omega) hgathers.behind (by omega)
        (hclimbed.join (Nat.le_of_not_lt hlt) hgathers)
      have hfewer' : left.length ≤ steps.length + 1 := by
        have := hgathers'.fewer
        omega
      refine ⟨tree', left, u, ?_, ?_, hfewer', hgathers'.grouped, hgathers'.tight, hgathers'.stops,
        hgathers'.behind, hgathers'.depth_eq.trans hdepth⟩
      · rw [run_next, hkind]
        refine (bind_of_ok hright).trans ?_
        rw [← OperatorTree.node_join]
        exact hrun
      · calc tree'.tokens ++ joined left = tree.tokens ++ operator :: (right.tokens ++ joined rest) := by
              rw [hgathers'.tokens, OperatorTree.tokens, List.append_assoc, List.cons_append]
          _ = tree.tokens ++ joined ((operator, operand) :: steps) := by
              rw [hgathers.tokens]
              rfl

theorem gathers_binary {bound : Nat} (hg : ∀ precedence, GathersAll bound (g (.binary precedence)) precedence)
    (least : Nat) : GathersAll (bound + 1) (binary g least) least := by
  intro first steps s hlt hs hd
  have hstart : s.offset = (OperatorTree.operand first).node.start := congrArg Token.start hs.current
  have hrounds : s.advance.rounds = s.rounds := congrArg Array.size s.stream.tokens_advance
  rw [binary, get_run, bind_of_ok (unary_of_operand hs hd), hstart, ← hrounds]
  exact gathers_binaryTail hg _ _ (Nat.le_of_lt_succ hlt) hs.behind.length_le_rounds hs.behind hd
    (climbed_operand least first steps)

/-- With a level for each step all operators are climbed. -/
theorem gathers_parseLevel : ∀ levels precedence,
    GathersAll levels (parseLevel levels (.binary precedence)) precedence
  | 0, _ => fun hlt => absurd hlt (Nat.not_lt_zero _)
  | levels + 1, precedence => gathers_binary (gathers_parseLevel levels) precedence

/-- An assignment that is nothing but operators and operands is their tree. -/
theorem assignment_of_operand (hg : ∀ precedence, GathersAll s.rounds (g (.binary precedence)) precedence)
    (hs : s.AtOperand first steps) (hd : s.depth + 2 ≤ maxParseDepth) :
    ∃ (tree : OperatorTree) (t : ParserState), assignment g s = .ok tree.node t ∧ t.kind = .endOfInput ∧
      tree.tokens = first :: joined steps ∧ tree.Grouped := by
  have hbound : steps.length ≤ s.rounds := by
    have := hs.behind.length_le_rounds
    rwa [show s.advance.rounds = s.rounds from congrArg Array.size s.stream.tokens_advance] at this
  obtain ⟨tree, left, t, hrun, hgathers⟩ := gathers_binary hg 1 (Nat.lt_succ_of_le hbound) hs.deeper
    (Nat.lt_of_succ_le hd)
  -- every operator binds at least as tightly as the loop asks
  obtain rfl : left = [] := by
    cases left with
    | nil => rfl
    | cons step left =>
      have := hgathers.stops step rfl
      have := Token.one_le_precedence (hgathers.behind.joins step List.mem_cons_self).1
      omega
  have hend := hgathers.behind.kind_of_nil
  refine ⟨tree, { t with depth := t.depth - 1 }, nested_of_ok (Nat.lt_of_succ_lt hd) ?_, hend, ?_,
    hgathers.grouped⟩
  · have hquestion := nextMark_of_false (t.atMark_of_end hend .question)
    have hconditional : conditional g { s with depth := s.depth + 1 } = .ok tree.node t := by
      rw [conditional, run_offset, bind_of_ok hrun, bind_of_ok hquestion]
      rfl
    rw [run_offset, bind_of_ok hconditional, get_run, hend]
    rfl
  · simpa [joined] using hgathers.tokens

end

/-- **Precedence climbing is correct.** A text of operands joined by binary operators is parsed to its end, as
the one tree that reads as the text does and is grouped by precedence. -/
theorem parseExpression_joined {text : List Char} {first last : Token} {steps : List (Token × Token)}
    (htokens : tokenize text = first :: joined steps ++ [last]) (hfirst : first.isOperand = true)
    (hsteps : ∀ step ∈ steps, step.1.isOperator = true ∧ step.2.isOperand = true) :
    ∃ (tree : OperatorTree) (t : ParserState), parse .assignment (.ofText text) = .ok tree.node t ∧
      t.atEnd = true ∧ parseExpression text = .ok tree.node ∧ (tree.tokens = first :: joined steps ∧ tree.Grouped) ∧
      ∀ other : OperatorTree, other.tokens = first :: joined steps ∧ other.Grouped → other = tree := by
  have hsound : (ParserState.ofText text).Sound := sound_startOf text false true
  have hahead : (ParserState.ofText text).ahead = first :: joined steps ++ [last] := by
    have hstream : (ParserState.ofText text).stream.tokens = (tokenize text).toArray := tokens_ofText _
    have hposition : (ParserState.ofText text).position = 0 := position_ofText _
    rw [ParserState.ahead, hstream, hposition, List.drop_zero, ← htokens]
  have hdepth : (0 : Nat) + 2 ≤ maxParseDepth := by decide
  obtain ⟨tree, t, hrun, hend, hread, hgrouped⟩ := assignment_of_operand (gathers_parseLevel _)
    (hsound.atOperand rfl hfirst hsteps hahead) hdepth
  have hparse : parse .assignment (.ofText text) = .ok tree.node t := hrun
  exact ⟨tree, t, hparse, beq_iff_eq.2 hend, by rw [parseExpression, Parse.result, hparse], ⟨hread, hgrouped⟩,
    fun other hother => hgrouped.unique hother.2 (hother.1.trans hread.symm)⟩

/-- Powers are joined from the right and bind more tightly than `&&`, which makes a logical expression. -/
theorem parseExpression_powers_and : parseExpression "a ** b ** c && d".toList = .ok
    ⟨⟨0, 16⟩, .logical (.punct .ampersandAmpersand)
      ⟨⟨0, 11⟩, .binary (.punct .asteriskAsterisk) ⟨⟨0, 1⟩, .identifier "a"⟩
        ⟨⟨5, 11⟩, .binary (.punct .asteriskAsterisk) ⟨⟨5, 6⟩, .identifier "b"⟩ ⟨⟨10, 11⟩, .identifier "c"⟩⟩⟩
      ⟨⟨15, 16⟩, .identifier "d"⟩⟩ := by
  obtain ⟨tree, -, -, -, hparse, -, hunique⟩ := @parseExpression_joined "a ** b ** c && d".toList
    ⟨.identifier, "a", 0, 1, false, false⟩ (.endOfInput 16)
    [(⟨.punct .asteriskAsterisk, "**", 2, 4, false, false⟩, ⟨.identifier, "b", 5, 6, false, false⟩),
      (⟨.punct .asteriskAsterisk, "**", 7, 9, false, false⟩, ⟨.identifier, "c", 10, 11, false, false⟩),
      (⟨.punct .ampersandAmpersand, "&&", 12, 14, false, false⟩, ⟨.identifier, "d", 15, 16, false, false⟩)]
    (by decide +kernel) (by decide) (by decide)
  have hgrouped : (OperatorTree.join
      (.join (.operand ⟨.identifier, "a", 0, 1, false, false⟩) ⟨.punct .asteriskAsterisk, "**", 2, 4, false, false⟩
        (.join (.operand ⟨.identifier, "b", 5, 6, false, false⟩) ⟨.punct .asteriskAsterisk, "**", 7, 9, false, false⟩
          (.operand ⟨.identifier, "c", 10, 11, false, false⟩)))
      ⟨.punct .ampersandAmpersand, "&&", 12, 14, false, false⟩
      (.operand ⟨.identifier, "d", 15, 16, false, false⟩)).Grouped :=
    .join (.join (.operand _) (.join (.operand _) (.operand _) (by decide) (by decide)) (by decide) (by decide))
      (.operand _) (by decide) (by decide)
  rw [hparse, ← hunique _ ⟨rfl, hgrouped⟩]
  rfl

end Typeahead
