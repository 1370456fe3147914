/-
# What an assignment begins with

Read as an expression, a pattern or a name is a primary expression at the head of an
assignment. Where `=` follows it the rest of the assignment is its value; where a comma or a
closing parenthesis follows it, or nothing can, there is no rest.

Reading parameters does not depend on whether `in` is an operator: only what stands between
brackets is read, or after `=`, where it always is one.

Key definitions: `EndsHead`, `IgnoresNoIn`.
Key theorems: `CleanRun.head_of_assignment`, `parametersFrom_ignoresNoIn`.
-/
import Typeahead.Proofs.Parse.Stuck

namespace Typeahead

open Parse Grammar

variable {α β : Type} {g : Grammar} {s t : ParserState}

/-- The current token can follow a primary expression that nothing else follows. -/
def ParserState.EndsHead (s : ParserState) : Prop :=
  s.kind = .punct .equals ∨ s.kind = .punct .comma ∨ s.kind = .punct .closeParen ∨ s.IsStuck

theorem suffixes_of_endsHead {start rounds : Nat} {n : Node} (h : s.EndsHead) :
    suffixes g start rounds n s = .ok n s := by
  cases rounds with
  | zero => rfl
  | succ rounds =>
    rw [suffixes, get_run]
    rcases h with h | h | h | h | h <;> rw [h] <;> rfl

theorem binaryTail_of_endsHead {start least rounds : Nat} {n : Node} (h : s.EndsHead) :
    binaryTail g start least rounds n s = .ok n s := by
  cases rounds with
  | zero => rfl
  | succ rounds =>
    rw [binaryTail, get_run]
    rcases h with h | h | h | h | h <;> rw [h] <;> rfl

theorem not_isUpdateOperator_of_endsHead (h : s.EndsHead) : isUpdateOperator s.kind = false := by
  rcases h with h | h | h | h | h <;> rw [h] <;> rfl

/-- The expression begins with what a primary expression reads, and stops where that does
if it ends a head. -/
theorem CleanRun.primary_of_leftHandSide (hg : g.Proceeds) (hnew : s.atKeyword .newWord = false)
    (hcall : ¬ s.AtAsyncCall) {n : Node} (h : CleanRun (leftHandSide g) s n t) :
    ∃ p u, CleanRun (primary g) s p u ∧ (u.EndsHead → t = u) := by
  have h : CleanRun (primary g >>= fun expression =>
      if expression.isArrowFunction then pure expression
      else suffixes g s.offset s.rounds expression) s n t := by
    refine h.of_eq ?_ rfl
    rw [leftHandSide, get_run, if_neg (by simp [hnew])]
  have hsuffixes : ∀ (p : Node) u, Proceeds (if p.isArrowFunction then pure p
      else suffixes g s.offset s.rounds p) u := fun p u => by
    split
    · exact .pure _
    · exact (built_suffixes s.offset s.rounds p u : Built 0 _ _ _).proceeds hg u (.rfl u)
  obtain ⟨p, u, hu, h⟩ := h.of_bind
    ((built_primary hcall : Built 0 _ _ _).proceeds hg s (.rfl s)) hsuffixes
  refine ⟨p, u, hu, fun he => ?_⟩
  split at h
  · exact h.of_pure.2
  · have hrun := h.1
    rw [suffixes_of_endsHead he] at hrun
    cases hrun
    rfl

/-- What a state needs for its token to be the head of an expression. -/
structure ParserState.BeginsHead (s : ParserState) : Prop where
  notNew : s.atKeyword .newWord = false
  notCall : ¬ s.AtAsyncCall
  notUnary : unaryOperator? s.current = none
  notUpdate : isUpdateOperator s.kind = false

theorem CleanRun.primary_of_unary (hg : g.Proceeds) (hs : s.BeginsHead) {n : Node}
    (h : CleanRun (unary g) s n t) :
    ∃ p u, CleanRun (primary g) { s with depth := s.depth + 1 } p u ∧
      (u.EndsHead → t = { u with depth := u.depth - 1 }) := by
  obtain ⟨_, t', hinner, rfl⟩ := h.of_nested
  have hpostfix : CleanRun (postfixExpression g s.offset) { s with depth := s.depth + 1 } n t' := by
    refine hinner.of_eq ?_ rfl
    have hunary : unaryOperator? (ParserState.current { s with depth := s.depth + 1 }) = none :=
      hs.notUnary
    have hupdate : isUpdateOperator (ParserState.kind { s with depth := s.depth + 1 }) = false :=
      hs.notUpdate
    rw [get_run, hunary]
    simp only [hupdate, Bool.false_eq_true, ↓reduceIte]
    rfl
  obtain ⟨e, v, hv, hrest⟩ := hpostfix.of_bind
    ((begins_leftHandSide : Begins 0 _ _ _).built.proceeds hg _ (.rfl _)) fun e v => .look (by
      dsimp only
      split
      · exact Proceeds.next.bind fun _ _ _ => .look (.pure _)
      · exact .pure _)
  obtain ⟨p, u, hu, hend⟩ := CleanRun.primary_of_leftHandSide
    (s := { s with depth := s.depth + 1 }) hg hs.notNew hs.notCall hv
  refine ⟨p, u, hu, fun he => ?_⟩
  obtain rfl := hend he
  have hpure : CleanRun (pure e) v n t' := by
    refine hrest.of_eq ?_ rfl
    have hupdate : isUpdateOperator v.current.kind = false := not_isUpdateOperator_of_endsHead he
    rw [get_run]
    simp only [hupdate, Bool.false_and, Bool.false_eq_true, ↓reduceIte]
  rw [hpure.of_pure.2]

theorem CleanRun.primary_of_conditional (hg : g.Proceeds) (hs : s.BeginsHead) {n : Node}
    (h : CleanRun (conditional g) s n t) :
    ∃ p u, CleanRun (primary g) { s with depth := s.depth + 1 } p u ∧
      (u.EndsHead → t = { u with depth := u.depth - 1 }) := by
  have hconditional : CleanRun (binary g 1 >>= fun test => nextMark .question >>= fun asks =>
      if !asks then pure test else do
        let consequent ← allowIn (g .assignment)
        let _ ← expect .colon
        let alternate ← g .assignment
        return ⟨⟨s.offset, alternate.stop⟩, .conditional test consequent alternate⟩) s n t := h
  obtain ⟨test, v, hv, hrest⟩ := hconditional.of_bind
    ((begins_binary 1 : Begins 0 _ _ _).built.proceeds hg s (.rfl s)) fun test v => (Proceeds.nextIf _).bind
      fun asks _ _ => by
        split
        · exact .pure _
        · exact (Proceeds.withNoIn (hg _ _)).bind fun _ _ _ => (Proceeds.expectKind _).bind
            fun _ _ _ => (hg _ _).bind fun _ _ _ => .pure _
  have hbinary : CleanRun (unary g >>= binaryTail g s.offset 1 s.rounds) s test v := hv
  obtain ⟨operand, w, hw, htail⟩ := hbinary.of_bind
    ((begins_unary : Begins 0 _ _ _).built.proceeds hg s (.rfl s))
    fun left u => (built_binaryTail _ _ _ left u : Built 0 _ _ _).proceeds hg u (.rfl u)
  obtain ⟨p, u, hu, hend⟩ := hw.primary_of_unary hg hs
  refine ⟨p, u, hu, fun he => ?_⟩
  obtain rfl := hend he
  have he' : ParserState.EndsHead { u with depth := u.depth - 1 } := he
  have hvw : v = { u with depth := u.depth - 1 } := by
    have hrun := htail.1
    rw [binaryTail_of_endsHead he'] at hrun
    cases hrun
    rfl
  subst hvw
  have hquestion : ParserState.atMark { u with depth := u.depth - 1 } .question = false := by
    rw [ParserState.atMark]
    rcases he' with he' | he' | he' | he' | he' <;> rw [he'] <;> rfl
  have hpure : CleanRun (pure test) { u with depth := u.depth - 1 } n t :=
    hrest.of_eq (bind_of_ok (nextMark_of_false hquestion)) rfl
  exact hpure.of_pure.2

/-- **An assignment begins with what a primary expression reads**, and where that ends a head
the rest is the value after `=`, or nothing. -/
theorem CleanRun.head_of_assignment (hg : g.Proceeds) (hs : s.BeginsHead) {n : Node}
    (h : CleanRun (assignment g) s n t) :
    ∃ p u, CleanRun (primary g) { s with depth := s.depth + 2 } p u ∧
      (u.EndsHead → u.kind ≠ .punct .equals → t.stream = u.stream) ∧
      (u.kind = .punct .equals → ∃ value v,
        CleanRun (g .assignment) (ParserState.advance { u with depth := s.depth + 1 }) value v ∧
          t.stream = v.stream) := by
  obtain ⟨_, t', hinner, rfl⟩ := h.of_nested
  have hassign : CleanRun (conditional g >>= fun target => get >>= fun u =>
      if !u.kind.isAssignment then pure target else do
        let _ ← next
        let value ← g .assignment
        return ⟨⟨s.offset, value.stop⟩, .assignment u.kind target value⟩)
      { s with depth := s.depth + 1 } n t' := hinner
  obtain ⟨target, v, hv, hrest⟩ := hassign.of_bind
    ((begins_conditional : Begins 0 _ _ _).built.proceeds hg _ (.rfl _)) fun target u => .look (by
      split
      · exact .pure _
      · exact Proceeds.next.bind fun _ _ _ => (hg _ _).bind fun _ _ _ => .pure _)
  obtain ⟨p, u, hu, hend⟩ := CleanRun.primary_of_conditional
    (s := { s with depth := s.depth + 1 }) hg ⟨hs.1, hs.2, hs.3, hs.4⟩ hv
  have hdepth : u.depth = s.depth + 2 := by
    have hfollows := ((built_primary hs.notCall : Built 0 _ _ _).proceeds hg
      { s with depth := s.depth + 2 } ⟨rfl, rfl⟩).ok hu.1
    exact hfollows.depth
  refine ⟨p, u, hu, fun he hne => ?_, fun heq => ?_⟩
  · obtain rfl := hend he
    have hassignment : (ParserState.kind { u with depth := u.depth - 1 }).isAssignment = false := by
      have hkind : ParserState.kind { u with depth := u.depth - 1 } = u.kind := rfl
      rw [hkind]
      rcases he with he | he | he | he | he
      · exact absurd he hne
      all_goals rw [he]; rfl
    have hpure : CleanRun (pure target) { u with depth := u.depth - 1 } n t' := by
      refine hrest.of_eq ?_ rfl
      rw [get_run, hassignment]
      rfl
    rw [hpure.of_pure.2]
  · obtain rfl := hend (.inl heq)
    have hassign : CleanRun (next >>= fun _ => g .assignment >>= fun value =>
        pure ⟨⟨s.offset, value.stop⟩, .assignment u.kind target value⟩)
        { u with depth := s.depth + 1 } n t' := by
      have hkind : (ParserState.kind { u with depth := u.depth - 1 }).isAssignment = true := by
        have hu' : ParserState.kind { u with depth := u.depth - 1 } = u.kind := rfl
        rw [hu', heq]
        rfl
      refine hrest.of_eq ?_ rfl
      rw [get_run, hkind, hdepth]
      rfl
    obtain ⟨_, w, hw, hassign⟩ := hassign.of_bind .next fun _ _ => (hg _ _).bind fun _ _ _ => .pure _
    cases hw.1
    obtain ⟨value, v, hv, hassign⟩ := hassign.of_bind (hg _ _) fun _ _ => .pure _
    refine ⟨value, v, hv, ?_⟩
    rw [hassign.of_pure.2]

/-! ### `in` as an operator -/

/-- The parse does the same whether `in` is an operator or not. -/
def IgnoresNoIn (x : Parse α) : Prop := ∀ s noIn,
  (∀ a t, x s = .ok a t → x { s with noIn } = .ok a { t with noIn }) ∧
    ∀ e t, x s = .error e t → x { s with noIn } = .error e { t with noIn }

namespace IgnoresNoIn

theorem pure (a : α) : IgnoresNoIn (Pure.pure a) := fun _ _ =>
  ⟨fun _ _ h => by cases h; rfl, fun _ _ h => by cases h⟩

theorem bind {x : Parse α} {f : α → Parse β} (hx : IgnoresNoIn x) (hf : ∀ a, IgnoresNoIn (f a)) :
    IgnoresNoIn (x >>= f) := by
  refine fun s noIn => ⟨fun b t h => ?_, fun e t h => ?_⟩
  · obtain ⟨a, u, hu, h⟩ := bind_ok.1 h
    exact (bind_of_ok ((hx s noIn).1 a u hu)).trans ((hf a u noIn).1 b t h)
  · rcases bind_error.1 h with h | ⟨a, u, hu, h⟩
    · exact bind_of_error ((hx s noIn).2 e t h)
    · exact (bind_of_ok ((hx s noIn).1 a u hu)).trans ((hf a u noIn).2 e t h)

theorem look {f : ParserState → Parse α} (hf : ∀ s noIn, f { s with noIn } = f s)
    (h : ∀ s, IgnoresNoIn (f s)) : IgnoresNoIn (get >>= f) := by
  intro s noIn
  obtain ⟨ho, he⟩ := h s s noIn
  have hrun : (get >>= f) { s with noIn } = f s { s with noIn } := by rw [get_run, hf]
  exact ⟨fun a t ha => hrun.trans (ho a t ha), fun e t ha => hrun.trans (he e t ha)⟩

theorem withNoIn (noIn : Bool) (x : Parse α) : IgnoresNoIn (withNoIn noIn x) := by
  refine fun s noIn' => ⟨fun a t h => ?_, fun e t h => ?_⟩ <;> rw [Parse.withNoIn] at h ⊢ <;>
    dsimp only at h ⊢ <;> split at h <;> cases h <;> rfl

theorem nextIf {p : ParserState → Bool} (hp : ∀ s noIn, p { s with noIn } = p s) :
    IgnoresNoIn (nextIf p) := by
  intro s noIn
  cases h : p s with
  | true =>
    rw [Parse.nextIf_of_true h, Parse.nextIf_of_true ((hp s noIn).trans h)]
    exact ⟨fun _ _ hrun => by cases hrun; rfl, fun _ _ hrun => by cases hrun⟩
  | false =>
    rw [Parse.nextIf_of_false h, Parse.nextIf_of_false ((hp s noIn).trans h)]
    exact ⟨fun _ _ hrun => by cases hrun; rfl, fun _ _ hrun => by cases hrun⟩

theorem expectKind (kind : TokenKind) : IgnoresNoIn (expectKind kind) := by
  refine fun s noIn => ⟨fun a t h => ?_, fun e t h => ?_⟩ <;> rw [Parse.expectKind] at h ⊢ <;>
    split at h <;> cases h
  · exact if_pos ‹_›
  · exact if_neg ‹_›

theorem bindingName : IgnoresNoIn bindingName := by
  refine fun s noIn => ⟨fun a t h => ?_, fun e t h => ?_⟩ <;> rw [Parse.bindingName] at h ⊢ <;>
    split at h <;> cases h
  · exact if_pos ‹_›
  · exact if_neg ‹_›

theorem objectLiteral (g : Grammar) : IgnoresNoIn (objectLiteral g) :=
  look (fun _ _ => rfl) fun _ => (expectKind _).bind fun _ => (withNoIn _ _).bind fun _ =>
    (expectKind _).bind fun _ => look (fun _ _ => rfl) fun _ => .pure _

theorem arrayLiteral (g : Grammar) : IgnoresNoIn (arrayLiteral g) :=
  look (fun _ _ => rfl) fun _ => (expectKind _).bind fun _ => (withNoIn _ _).bind fun _ =>
    (expectKind _).bind fun _ => look (fun _ _ => rfl) fun _ => .pure _

end IgnoresNoIn

/-! ### Parameters -/

/-- The name or the pattern of a parameter. -/
def Grammar.parameterHead (g : Grammar) : Parse (String × Option Node) := do
  match (← get).kind with
  | .punct .openBrace => return ("", some (← objectLiteral g))
  | .punct .openBracket => return ("", some (← arrayLiteral g))
  | _ => return (← bindingName, none)

/-- A parameter after its name or pattern. -/
def Grammar.parameterRest (g : Grammar) (start : Nat) (isRest : Bool) (head : String × Option Node) :
    Parse Node := do
  let fallback ← if ← nextMark .equals then some <$> allowIn (g .assignment) else pure none
  finish start (.parameter head.1 head.2 fallback isRest)

theorem parameterFrom_eq (g : Grammar) (start : Nat) (isRest : Bool) :
    parameterFrom g start isRest = parameterHead g >>= parameterRest g start isRest := by
  funext s
  simp only [parameterFrom, parameterHead, bind_assoc]
  rw [get_run, get_run]
  cases s.kind with
  | punct mark => cases mark <;> simp only [bind_assoc, pure_bind] <;> rfl
  | _ => simp only [bind_assoc, pure_bind]; rfl

theorem built_parameterHead {last : Nat} : Built last s (fun _ => True) parameterHead := by
  refine .look (fun _ _ _ _ _ => rfl) ?_
  cases s.kind with
  | punct mark =>
    cases mark
    case openBrace => exact .step begins_objectLiteral.built fun _ _ => .pure _
    case openBracket => exact .step begins_arrayLiteral.built fun _ _ => .pure _
    all_goals exact .step .bindingName fun _ _ => .pure _
  | _ => exact .step .bindingName fun _ _ => .pure _

namespace IgnoresNoIn

theorem parameterHead (g : Grammar) : IgnoresNoIn (parameterHead g) := by
  refine look (fun _ _ => rfl) fun s => ?_
  split
  · exact (objectLiteral g).bind fun _ => .pure _
  · exact (arrayLiteral g).bind fun _ => .pure _
  · exact bindingName.bind fun _ => .pure _

theorem parameterFrom (g : Grammar) (start : Nat) (isRest : Bool) :
    IgnoresNoIn (parameterFrom g start isRest) := by
  rw [parameterFrom_eq]
  refine (parameterHead g).bind fun head => (nextIf fun _ _ => rfl).bind fun hasDefault => ?_
  have hfinish : ∀ fallback, IgnoresNoIn
      (Parse.finish start (.parameter head.1 head.2 fallback isRest)) := fun _ =>
    look (fun _ _ => rfl) fun _ => .pure _
  cases hasDefault with
  | true =>
    have hvalue : IgnoresNoIn (some <$> allowIn (g .assignment)) := by
      rw [map_eq_pure_bind]
      exact (withNoIn _ _).bind fun _ => .pure _
    exact hvalue.bind hfinish
  | false => exact (pure _).bind hfinish

theorem parametersFrom (g : Grammar) : ∀ rounds, IgnoresNoIn (parametersFrom g rounds)
  | 0 => .pure _
  | rounds + 1 => by
    have hmark : ∀ (s : ParserState) noIn, ({ s with noIn } : ParserState).atMark .closeParen =
        s.atMark .closeParen := fun _ _ => rfl
    refine look (fun s noIn => by rw [hmark]) fun s => ?_
    split
    · exact .pure _
    · refine look (fun _ _ => rfl) fun _ => (nextIf fun _ _ => rfl).bind fun isRest =>
        (parameterFrom g _ isRest).bind fun parameter => look (fun s noIn => by rw [hmark]) fun s => ?_
      split
      · exact .pure _
      · exact (expectKind _).bind fun _ => (parametersFrom g rounds).bind fun _ => .pure _

end IgnoresNoIn

end Typeahead
