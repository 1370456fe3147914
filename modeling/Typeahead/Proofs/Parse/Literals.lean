/-
# Literals, bodies and classes are built

The productions between brackets are built from the steps of the grammar, wherever they
start. Nothing that ends with a bracket of its own is ever open; blocks and classes may be.

Key theorems: `begins_objectLiteral`, `built_parametersFrom`, `begins_block`, `begins_classParts`.
-/
import Typeahead.Proofs.Parse.Begins

namespace Typeahead

open Parse Grammar Built

variable {last : Nat} {s : ParserState}

/-! ### Literals -/

/-- The expressions after the first of a sequence, if any. -/
theorem built_sequenceRest {x : Grammar → Parse Node} (hx : ∀ t, Built last t (Node.Open last) x)
    (start : Nat) (first : Node) : Built last s (Node.Open last) fun g => (do
      if !(← get).atMark .comma then return first
      let others ← collectUntil (!·.atMark .comma) do
        let _ ← Parse.next
        return some (← x g)
      Parse.finish start (.sequence (first :: others))) := by
  refine look (fun _ _ _ _ _ => rfl) (ite (fun _ => .pure first) fun _ => ?_)
  refine .bind (nodes (fun _ _ h => congrArg not (h.atMark _)) fun t ht => ?_)
    (fun others t => finish ..) ?_
  · have h : t.atMark .comma = true := by simpa using ht
    exact step (read (ParserState.not_isStuck_of_atMark h (by simp))) fun _ u => someBind (hx u)
  · exact .finish fun others r ⟨n, hn, ho⟩ => .of_child (List.mem_cons_of_mem _ hn) ho

theorem keepsOpen_sequenceRest (x : Grammar → Parse Node) (start : Nat) :
    KeepsOpen last (Node.Open last) (Node.Open last) fun first g => (do
      if !(← get).atMark .comma then return first
      let others ← collectUntil (!·.atMark .comma) do
        let _ ← Parse.next
        return some (← x g)
      Parse.finish start (.sequence (first :: others))) := by
  refine .look fun u hu => ?_
  simp only [u.atMark_of_end hu, Bool.not_false, ↓reduceIte]
  exact .pure fun _ h => h

theorem begins_sequenceOf {x : Grammar → Parse Node} (hx : ∀ t, Begins last t (Node.Open last) x) :
    Begins last s (Node.Open last) fun g => sequenceOf (x g) :=
  .offset (.bind (hx s) (fun first _ => built_sequenceRest (fun t => (hx t).built) _ first)
    (keepsOpen_sequenceRest x _))

theorem built_innerSequence : Built last s (Node.Open last) innerSequence :=
  offset (.bind (.call _) (fun first _ => built_sequenceRest (fun _ => .call _) _ first)
    (keepsOpen_sequenceRest (fun g => g .assignment) _))

theorem built_memberName {O : Node → Prop} : Built last s O fun _ => memberName :=
  offset (step (nextMark (by simp)) fun _ _ => ite
    (fun _ => step anyWord fun _ _ => finish ..) fun _ => step anyWord fun _ _ => finish ..)

theorem built_computedKey {O : Node → Prop} : Built last s O computedKey :=
  step (expect (by simp)) fun _ _ => .bind (.withNoIn _ built_innerSequence)
    (fun _ _ => step (expect (by simp)) fun _ _ => .pure _) .expect

theorem built_separator {close : Punctuator} {O : Unit → Prop} :
    Built last s O fun _ => separator close :=
  look (fun _ _ _ _ _ => rfl) (ite (fun _ => step (expect (by simp)) fun _ _ => .pure _)
    fun _ => .pure _)

theorem built_spreadOrAssignment : Built last s (Node.Open last) spreadOrAssignment :=
  offset (step (nextMark (by simp)) fun _ _ => ite
    (fun _ => .bind (.call _) (fun _ _ => finish ..) (.finish fun _ _ h => .of_child (by simp [NodeKind.children]) h))
    fun _ => .call _)

theorem separator_of_end (close : Punctuator) {t : ParserState} (h : t.kind = .endOfInput) :
    ∃ e u, separator close t = .error e u := by
  refine ⟨t.unexpected (.punct .comma), t, ?_⟩
  simp only [separator, get_run, t.atMark_of_end h, Bool.not_false, ↓reduceIte]
  refine bind_of_error ?_
  rw [Parse.expect, Parse.expectKind, h]
  rfl

/-- The items of a list in brackets, each with the comma after it. -/
theorem built_items {close : Punctuator} {x : Grammar → Parse Node}
    (hx : ∀ t, Built last t (Node.Open last) x) :
    Built last s (AnyOpen last) fun g => collectUntil (·.atMark close) do
      let item ← x g
      separator close
      return some item :=
  nodes (fun _ _ h => h.atMark _) fun _ _ => .bind (hx _)
    (fun _ _ => step built_separator fun _ _ => .pure _)
    (.fails fun _ _ s hs => by
      obtain ⟨e, u, h⟩ := separator_of_end close hs
      exact ⟨e, u, bind_of_error h⟩)

theorem built_arguments {O : List Node → Prop} : Built last s O arguments :=
  step (expect (by simp)) fun _ _ => .bind (.withNoIn _ (built_items fun _ => built_spreadOrAssignment))
    (fun _ _ => step (expect (by simp)) fun _ _ => .pure _) .expect

theorem begins_arrayLiteral {O : Node → Prop} : Begins last s O arrayLiteral :=
  .offset (.step (.expect (by simp)) fun _ _ => .bind (.withNoIn _ (nodes (fun _ _ h => h.atMark _)
    fun _ _ => step (nextMark (by simp)) fun _ _ => ite (fun _ => .pure _) fun _ =>
      .bind built_spreadOrAssignment (fun _ _ => step built_separator fun _ _ => .pure _)
        (.fails fun _ _ s hs => by
          obtain ⟨e, u, h⟩ := separator_of_end .closeBracket hs
          exact ⟨e, u, bind_of_error h⟩)))
    (fun _ _ => step (expect (by simp)) fun _ _ => finish ..) .expect)

theorem built_propertyKey {O : Node × Bool → Prop} : Built last s O propertyKey := by
  have hword : ∀ kind : TokenKind, s.kind = kind → Built last s O fun _ => if kind.isWord then do
      let _ ← Parse.next
      return (← Parse.finish s.current.start (.identifier s.current.text), false)
    else throw (s.unexpected .identifier) := fun kind hk => ite
      (fun h => step (read (by rintro (h' | h') <;> rw [← hk, h'] at h <;> cases h))
        fun _ _ => step (finish ..) fun _ _ => .pure _)
      fun _ => .fail _ rfl
  refine look (fun _ _ _ _ _ => rfl) ?_
  dsimp only
  cases hk : s.current.kind with
  | punct mark =>
    cases mark
    case openBracket => exact step built_computedKey fun _ _ => .pure _
    all_goals exact hword _ hk
  | string | number =>
    exact step (read (ParserState.not_isStuck hk (by simp) (by simp)))
      fun _ _ => step (finish ..) fun _ _ => .pure _
  | _ => exact hword _ hk

theorem built_shorthandValue (key : Node) :
    Built last s (Node.Open last) fun g => shorthandValue g key :=
  step (nextMark (by simp)) fun _ _ => ite
    (fun _ => .bind (.call _) (fun _ _ => .pure _)
      (.pure fun _ h => .of_child (by simp [NodeKind.children]) h))
    fun _ => .pure _

theorem not_isStuck_of_atAccessor (h : atAccessor s = true) : ¬ s.IsStuck := by
  rw [atAccessor, Bool.and_eq_true, Bool.or_eq_true] at h
  rcases h.1 with h | h
  · exact ParserState.not_isStuck_of_atKeyword h
  · exact ParserState.not_isStuck_of_atKeyword h

theorem built_propertyFrom (start : Nat) (isAsync : Bool) :
    Built last s (Node.Open last) fun g => propertyFrom g start isAsync := by
  refine step built_propertyKey fun p _ => ?_
  obtain ⟨key, computed⟩ := p
  refine look (fun _ _ _ _ _ => rfl) (ite (fun _ => ?_) fun _ => step (nextMark (by simp))
    fun _ _ => ite (fun _ => ?_) fun _ => ite (fun _ => ?_)
      fun _ => look (fun _ _ _ _ _ => rfl) (.fail _ rfl))
  · exact .bind (.call _) (fun _ _ => finish ..)
      (.finish fun _ _ h => .of_child (by simp [NodeKind.children]) h)
  · exact .bind (.call _) (fun _ _ => finish ..)
      (.finish fun _ _ h => .of_child (by simp [NodeKind.children]) h)
  · exact .bind (built_shorthandValue key) (fun _ _ => finish ..)
      (.finish fun _ _ h => .of_child (by simp [NodeKind.children]) h)

theorem built_objectMember : Built last s (Node.Open last) objectMember := by
  refine offset (step (nextMark (by simp)) fun _ _ => ite (fun _ => ?_) fun _ => ?_)
  · exact .bind (.call _) (fun _ _ => finish ..)
      (.finish fun _ _ h => .of_child (by simp [NodeKind.children]) h)
  · refine step (nextIf (fun _ _ _ _ _ => rfl) fun h => ?_) fun _ _ => step (nextMark (by simp))
      fun _ _ => step (nextIf (fun _ _ _ _ _ => rfl) fun h => ?_) fun _ _ => built_propertyFrom _ _
    · exact ParserState.not_isStuck_of_atKeyword (Bool.and_eq_true_iff.1 h).1
    · exact not_isStuck_of_atAccessor (Bool.and_eq_true_iff.1 h).2

theorem begins_objectLiteral {O : Node → Prop} : Begins last s O objectLiteral :=
  .offset (.step (.expect (by simp)) fun _ _ => .bind (.withNoIn _ (built_items fun _ => built_objectMember))
    (fun _ _ => step (expect (by simp)) fun _ _ => finish ..) .expect)

/-! ### Parameters and bodies -/

/-- A parameter after its name or pattern. -/
theorem built_parameterRest (start : Nat) (isRest : Bool) (name : String) (pattern : Option Node) :
    Built last s (fun _ => True) fun g => (do
      let fallback ← if ← Parse.nextMark .equals then some <$> allowIn (g .assignment) else pure none
      Parse.finish start (.parameter name pattern fallback isRest)) :=
  step (nextMark (by simp)) fun _ _ => iteBind
    (fun _ => .mapSome (.withNoIn _ (.call _))) (fun _ => .pure _) (fun _ _ => finish ..)
    .any

theorem built_parameterFrom (start : Nat) (isRest : Bool) :
    Built last s (fun _ => True) fun g => parameterFrom g start isRest := by
  have hname : Built last s (fun _ => True) fun g => bindingName >>= fun name =>
      pure (name, none) >>= fun (p : String × Option Node) => (do
        let fallback ← if ← Parse.nextMark .equals then some <$> allowIn (g .assignment) else pure none
        Parse.finish start (.parameter p.1 p.2 fallback isRest)) :=
    step bindingName fun _ _ => step (.pure _) fun _ _ => built_parameterRest ..
  refine look (fun _ _ _ _ _ => rfl) ?_
  dsimp only
  cases hk : s.kind with
  | punct mark =>
    cases mark
    case openBrace =>
      exact step begins_objectLiteral.built fun _ _ => step (.pure _) fun _ _ => built_parameterRest ..
    case openBracket =>
      exact step begins_arrayLiteral.built fun _ _ => step (.pure _) fun _ _ => built_parameterRest ..
    all_goals exact hname
  | _ => exact hname

theorem built_parametersFrom : ∀ rounds s,
    Built last s (fun _ => True) fun g => parametersFrom g rounds
  | 0, _ => .pure []
  | rounds + 1, s => by
    have hrest : ∀ (parameter : Node) t, Built last t (fun _ => True) fun g =>
        Parse.expect .comma >>= fun _ => parametersFrom g rounds >>= fun others =>
          pure (parameter :: others) := fun parameter t =>
      step (expect (by simp)) fun _ _ => .bind (built_parametersFrom rounds _) (fun _ _ => .pure _)
        .any
    refine look (fun _ _ _ _ _ => rfl) (ite (fun _ => .pure _) fun _ => offset
      (step (nextMark (by simp)) fun isRest t => .bind (built_parameterFrom _ _) (fun parameter u =>
        look (fun _ _ _ _ _ => rfl) (ite (fun _ => .pure _) fun _ => hrest _ _)) ?_))
    exact .any

theorem begins_parameterList {O : List Node → Prop} : Begins last s O parameterList :=
  .step (.expect (by simp)) fun _ _ => look (fun _ _ _ _ _ => rfl) (.bind (built_parametersFrom _ _)
    (fun _ _ => step (expect (by simp)) fun _ _ => .pure _) .expect)

theorem built_statementList {done : ParserState → Bool}
    (hd : ∀ t u : ParserState, t.SameView u → done u = done t) :
    Built last s (AnyOpen last) fun g => statementList g done :=
  nodes (fun t u h => by
    rw [hd t u h, ParserState.atEnd, ParserState.atEnd, h.1]) fun _ _ => .listedStatement

theorem begins_block : Begins last s (Node.Open last) block :=
  .offset (.step (.expect (by simp)) fun _ _ => .bind (built_statementList fun _ _ h => h.atMark _)
    (fun _ _ => .bind .closeBrace (fun _ _ => .pure _) (.pure fun _ h => .of_stop h))
    (.closeBrace fun _ _ h => .of_stop h))

theorem begins_functionRest (name : Option String) (isAsync : Bool) :
    Begins last s (FunctionParts.Open last) fun g => functionRest g name isAsync :=
  .step begins_parameterList fun _ _ => .bind (.withNoIn _ begins_block.built) (fun _ _ => .pure _)
    (.pure fun body h => ⟨body, by simp, h⟩)

theorem FunctionParts.Open.node {start : Nat} {parts : FunctionParts Node} (h : parts.Open last) :
    (functionNode start parts).Open last := .of_children h

theorem begins_method (isAsync : Bool) : Begins last s (Node.Open last) fun g => method g isAsync :=
  .offset (.bind (begins_functionRest _ _) (fun _ _ => .pure _) (.pure fun _ h => h.node))

/-! ### Classes -/

theorem begins_elementName {O : String → Prop} : Begins last s O elementName := by
  have hword : ∀ kind : TokenKind, s.kind = kind → Begins last s O fun _ => if kind.isWord then do
      let _ ← Parse.next
      return s.current.text
    else throw (s.unexpected .identifier) := fun kind hk => .ite
      (fun h => .step (.read (by rintro (h' | h') <;> rw [← hk, h'] at h <;> cases h)) fun _ _ => .pure _)
      fun _ => .fail _ rfl
  refine .look (fun _ _ _ _ _ => rfl) ?_
  dsimp only
  cases hk : s.current.kind with
  | punct mark =>
    cases mark
    case openBracket =>
      exact .step (.read (ParserState.not_isStuck hk (by simp) (by simp))) fun _ _ =>
        .bind (.withNoIn _ (.call _)) (fun _ _ => step (expect (by simp)) fun _ _ => .pure _) .expect
    case hash =>
      exact .step (.read (ParserState.not_isStuck hk (by simp) (by simp))) fun _ _ =>
        step anyWord fun _ _ => .pure _
    all_goals exact hword _ hk
  | string | number =>
    exact .step (.read (ParserState.not_isStuck hk (by simp) (by simp))) fun _ _ => .pure _
  | _ => exact hword _ hk

theorem built_accessorKind {O : MethodKind → Prop} (isAsync isGenerator : Bool) :
    Built last s O fun _ => accessorKind isAsync isGenerator :=
  look (fun _ _ _ _ _ => rfl) (ite
    (fun h => step (read (not_isStuck_of_atAccessor (Bool.and_eq_true_iff.1 h).2)) fun _ _ => .pure _)
    fun _ => .pure _)

theorem begins_elementFrom (start : Nat) (isStatic isAsync isGenerator : Bool) :
    Begins last s (fun _ => True) fun g => elementFrom g start isStatic isAsync isGenerator := by
  refine .after (built_accessorKind _ _) (fun kind _ => .step begins_elementName fun key t => ?_) .closed
  refine look (fun _ _ _ _ _ => rfl) (ite (fun _ => ?_) fun _ => ?_)
  · exact offset (.bind (begins_functionRest _ _).built (fun _ _ => .pure _)
      .any)
  · exact step (nextMark (by simp)) fun _ _ => iteBind (fun _ => .mapSome (.call _)) (fun _ => .pure _)
      (fun _ _ => step semicolon fun _ _ => finish ..) .any

theorem begins_elementAfterAccess (start : Nat) :
    Begins last s (fun _ => True) fun g => elementAfterAccess g start := by
  refine .look (fun _ _ _ _ _ => rfl) (.ite (fun h => ?_) fun _ => ?_)
  · have hs := ParserState.not_isStuck_of_atKeyword (Bool.and_eq_true_iff.1 h).1
    exact .step (.read hs) fun _ _ => .bind begins_block.built (fun _ _ => .pure _) .any
  · refine .after (nextIf (fun _ _ _ _ _ => rfl) fun h => ?_) (fun _ _ =>
      .after (nextIf (fun _ _ _ _ _ => rfl) fun h => ?_) (fun _ _ => .after (nextMark (by simp))
        (fun _ _ => .bind (begins_elementFrom ..) (fun _ _ => .pure _) .any) .closed) .closed) .closed
    · exact ParserState.not_isStuck_of_atKeyword (Bool.and_eq_true_iff.1 h).1
    · simp only [Bool.and_eq_true] at h
      exact ParserState.not_isStuck_of_atKeyword h.1.1

theorem not_isStuck_of_atAccessModifier (h : atAccessModifier s = true) : ¬ s.IsStuck := by
  rw [atAccessModifier] at h
  simp only [Bool.and_eq_true, Bool.or_eq_true] at h
  rcases h.1 with (h | h) | h <;> exact ParserState.not_isStuck_of_atReserved h

theorem begins_classElement : Begins last s (fun _ => True) classElement := by
  refine .offset (.after (loop (fun t u h => ?_) fun t ht => ?_)
    (fun _ _ => begins_elementAfterAccess _) .any)
  · obtain ⟨stream, d, r, noIn, fs, ra, fa⟩ := u
    obtain ⟨rfl, rfl⟩ := h
    rfl
  · exact step (read (not_isStuck_of_atAccessModifier (by simpa using ht))) fun _ _ => .pure _

theorem begins_classParts (requireName : Bool) :
    Begins last s (ClassParts.Open last) fun g => classParts g requireName := by
  have hmembers : ∀ (name : Option String) (superclass : Option Node) (bodyStart : Nat) t,
      Built last t (ClassParts.Open last) fun g => (do
        let members ← Parse.collectUntil (fun s => s.atMark .closeBrace || s.atEnd) (listedElement g)
        let stop ← closeBrace
        return { name, superclass, members, bodyRange := ⟨bodyStart, stop⟩ }) :=
    fun name superclass bodyStart t =>
      .bind (loop (fun t u h => by rw [h.atMark, ParserState.atEnd, ParserState.atEnd, h.1])
        fun _ _ => .listedElement fun _ => begins_classElement.built)
        (fun _ _ => .bind .closeBrace (fun _ _ => .pure _) (.pure fun _ h => .inr h))
        (.closeBrace fun _ _ h => .inr h)
  refine .step (.expectKind (by simp) (by simp)) fun _ _ => look (fun _ _ _ _ _ => rfl) ?_
  refine iteBind (O := fun _ => False) (fun _ => map bindingName fun _ h => h) (fun _ => .pure _)
    (fun name t => ?_) .closed
  refine step (nextIf (fun _ _ _ _ _ => rfl) ParserState.not_isStuck_of_atKeyword) fun _ _ => ?_
  refine iteBind (fun _ => .mapSome (.call _)) (fun _ => .pure _) (fun superclass t => ?_) ?_
  · exact offset (step (expect (by simp)) fun _ _ => hmembers ..)
  · exact .offset fun _ => .expect

end Typeahead
