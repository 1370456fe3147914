/-
# Literals, bodies and classes keep the height

Each production between brackets ends at the height at which it starts, and the braces of the
blocks and classes in what it yields match by counting, unless a class element was skipped inside.

Key definitions: `Disturbed`, `Node.Fine`, `Grammar.Levels`.
Key theorems: `level_objectLiteral`, `level_block`, `level_classParts`.
-/
import Typeahead.Proofs.Braces.Level

namespace Typeahead

open Parse Grammar

/-! ### Braces of nodes -/

/-- A fault shows in the range behind the word `class` in it. -/
def Disturbed (tokens : Array Token) (faults : List ParseError) (r : TextRange) : Prop :=
  ∃ fault ∈ faults, ClassBehind tokens r.start fault.position ∧ fault.position < r.stop

/-- A fault shows in the range. -/
def Faulty (faults : List ParseError) (r : TextRange) : Prop :=
  ∃ fault ∈ faults, r.start ≤ fault.position ∧ fault.position < r.stop

/-- The braces of every block and class in the tree match, unless a fault shows in a class there. -/
structure Node.Fine (tokens : Array Token) (faults : List ParseError) (n : Node) : Prop where
  block : ∀ m body, n.Contains m → m.kind = .block body → Matched tokens m.range ∨ Disturbed tokens faults m.range
  body : ∀ m r, n.Contains m → r ∈ m.kind.classBody? → Matched tokens r ∨ Faulty faults r

/-- A node that has braces of its own. -/
def NodeKind.isBraced : NodeKind → Bool
  | .block _ | .classExpression _ | .classDeclaration _ => true
  | _ => false

/-- Every tree is so. -/
abbrev AllFine (tokens : Array Token) (faults : List ParseError) (nodes : List Node) : Prop :=
  ∀ n ∈ nodes, n.Fine tokens faults

variable {tokens : Array Token} {faults : List ParseError} {counts : Nat → Prop} {s : ParserState} {range : TextRange}
  {kind : NodeKind}

namespace Node.Fine

theorem of_own (hblock : ∀ body, kind = .block body → Matched tokens range ∨ Disturbed tokens faults range)
    (hbody : ∀ r ∈ kind.classBody?, Matched tokens r ∨ Faulty faults r) (hc : AllFine tokens faults kind.children) :
    Node.Fine tokens faults ⟨range, kind⟩ where
  block m body hm hk := by
    cases hm with
    | self => exact hblock body hk
    | inside hmem hm => exact (hc _ hmem).block m body hm hk
  body m r hm hr := by
    cases hm with
    | self => exact hbody r hr
    | inside hmem hm => exact (hc _ hmem).body m r hm hr

/-- A node without braces of its own. -/
theorem plain (hk : kind.isBraced = false) (hc : AllFine tokens faults kind.children) :
    Node.Fine tokens faults ⟨range, kind⟩ := by
  refine of_own (fun body h => ?_) (fun r hr => ?_) hc
  · rw [h] at hk
    cases hk
  · cases kind with
    | classExpression | classDeclaration => cases hk
    | _ => cases hr

/-- A node without pieces. -/
theorem leaf (hk : kind.isBraced = false) (hc : kind.children = []) : Node.Fine tokens faults ⟨range, kind⟩ :=
  plain hk fun n hn => by rw [hc] at hn; cases hn

theorem child {n m : Node} (h : n.Fine tokens faults) (hm : m ∈ n.kind.children) : m.Fine tokens faults :=
  ⟨fun l body hl => h.block l body (.inside hm hl), fun l r hl => h.body l r (.inside hm hl)⟩

end Node.Fine

theorem AllFine.nil : AllFine tokens faults [] := fun _ h => by cases h

theorem AllFine.cons {n : Node} {l : List Node} (h : n.Fine tokens faults) (h' : AllFine tokens faults l) :
    AllFine tokens faults (n :: l) := List.forall_mem_cons.2 ⟨h, h'⟩

theorem AllFine.single {n : Node} (h : n.Fine tokens faults) : AllFine tokens faults [n] := .cons h .nil

theorem AllFine.append {l l' : List Node} (h : AllFine tokens faults l) (h' : AllFine tokens faults l') :
    AllFine tokens faults (l ++ l') := fun n hn => (List.mem_append.1 hn).elim (h n) (h' n)

theorem AllFine.optional {o : Option Node} (h : ∀ n ∈ o, n.Fine tokens faults) : AllFine tokens faults o.toList :=
  fun n hn => h n (Option.mem_toList.1 hn)

/-- The productions of the grammar keep the height and yield trees whose braces match. -/
def Grammar.Levels (tokens : Array Token) (faults : List ParseError) (g : Grammar) : Prop :=
  ∀ q counts s, Level tokens faults counts (Node.Fine tokens faults) (g q) s

/-! ### Expressions in brackets -/

theorem level_some {x : Parse Node} (h : Level tokens faults counts (Node.Fine tokens faults) x s) :
    Level tokens faults counts (fun o => ∀ n ∈ o, n.Fine tokens faults) (some <$> x) s :=
  h.map fun n hn m hm => by cases hm; exact hn

theorem level_none : Level tokens faults counts (fun o => ∀ n ∈ o, Node.Fine tokens faults n) (pure none) s :=
  .pure fun _ h => by cases h

theorem level_sequenceOf {x : Parse Node} (hx : ∀ u, Level tokens faults counts (Node.Fine tokens faults) x u) :
    Level tokens faults counts (Node.Fine tokens faults) (sequenceOf x) s := by
  refine .offset ((hx s).bind fun first u _ => .look ?_)
  split
  · exact .pure id
  · refine (Level.collectUntil (P := Node.Fine tokens faults) fun v _ hv => ?_).bind fun others w _ =>
      .finish fun r hothers hfirst => .plain rfl (.cons hfirst hothers)
    have hk := Level.noBrace_of_kind (ParserState.atMark_iff.1 (by simpa using hv)) (by simp) (by simp)
    exact .step (.next hk) fun _ w _ => (hx w).bind fun item z _ => .pure fun h n hn => by cases hn; exact h

theorem level_memberName : Level tokens faults counts (Node.Fine tokens faults) memberName s := by
  refine .offset (.step (.nextMark (by decide) (by decide)) fun b u _ => ?_)
  split
  · exact .step .anyWord fun name v _ => .finish fun r => .leaf rfl rfl
  · exact .step .anyWord fun name v _ => .finish fun r => .leaf rfl rfl

variable {g : Grammar}

theorem level_separator {close : Punctuator} : Level tokens faults counts (fun _ => True) (separator close) s := by
  refine .look ?_
  split
  · exact .step (.expect (by decide) (by decide)) fun _ _ _ => .pure trivial
  · exact .pure trivial

section

variable (hg : g.Levels tokens faults)
include hg

theorem level_innerSequence : Level tokens faults counts (Node.Fine tokens faults) (innerSequence g) s :=
  level_sequenceOf fun u => hg _ _ u

theorem level_computedKey : Level tokens faults counts (Node.Fine tokens faults) (computedKey g) s :=
  .step (.expect (by decide) (by decide)) fun _ u _ =>
    (Level.withNoIn (level_innerSequence hg)).bind fun key v _ =>
      .step (.expect (by decide) (by decide)) fun _ w _ => .pure id

theorem level_spreadOrAssignment : Level tokens faults counts (Node.Fine tokens faults) (spreadOrAssignment g) s := by
  refine .offset (.step (.nextMark (by decide) (by decide)) fun b u _ => ?_)
  split
  · exact (hg _ _ u).bind fun n v _ => .finish fun r h => .plain rfl (.single h)
  · exact hg _ _ u

theorem level_item {close : Punctuator} : Level tokens faults counts (fun o => ∀ n ∈ o, Node.Fine tokens faults n) (do
    let item ← spreadOrAssignment g
    separator close
    return some item) s :=
  (level_spreadOrAssignment hg).bind fun item u _ => .step level_separator fun _ v _ =>
    .pure fun h n hn => by cases hn; exact h

theorem level_arguments : Level tokens faults counts (AllFine tokens faults) (arguments g) s :=
  .step (.expect (by decide) (by decide)) fun _ u _ =>
    (Level.withNoIn (Level.collectUntil fun v _ _ => level_item hg)).bind fun items v _ =>
      .step (.expect (by decide) (by decide)) fun _ w _ => .pure id

theorem level_arrayLiteral : Level tokens faults counts (Node.Fine tokens faults) (arrayLiteral g) s := by
  refine .offset (.step (.expect (by decide) (by decide)) fun _ u _ =>
    (Level.withNoIn (Level.collectUntil (P := Node.Fine tokens faults) fun v _ _ => ?_)).bind fun items v _ =>
      .step (.expect (by decide) (by decide)) fun _ w _ => .finish fun r h => .plain rfl h)
  refine .step (.nextMark (by decide) (by decide)) fun b w _ => ?_
  split
  · exact level_none
  · exact level_item hg

/-! ### Objects -/

omit hg in
theorem leaf_literalOfToken (token : Token) (r : TextRange) : Node.Fine tokens faults ⟨r, literalOfToken token⟩ := by
  rw [literalOfToken]
  split
  · exact .leaf rfl rfl
  · split <;> exact .leaf rfl rfl

theorem level_propertyKey : Level tokens faults counts (fun key => key.1.Fine tokens faults) (propertyKey g) s := by
  refine .look ?_
  dsimp only
  split
  · exact (level_computedKey hg).bind fun key u _ => .pure id
  · rename_i hk
    exact .step (.next (Level.noBrace_of_kind hk (by simp) (by simp))) fun token u _ =>
      (Level.finish fun r => leaf_literalOfToken _ r).bind fun key v _ => .pure id
  · rename_i hk
    exact .step (.next (Level.noBrace_of_kind hk (by simp) (by simp))) fun token u _ =>
      (Level.finish fun r => leaf_literalOfToken _ r).bind fun key v _ => .pure id
  · split
    · rename_i hk
      exact .step (.next (Level.noBrace_of_isWord hk)) fun token u _ =>
        (Level.finish (R := Node.Fine tokens faults) fun r => .leaf rfl rfl).bind fun key v _ => .pure id
    · exact .fail rfl

theorem level_shorthandValue {key : Node} : Level tokens faults counts
    (fun value => key.Fine tokens faults → value.Fine tokens faults) (shorthandValue g key) s := by
  refine .step (.nextMark (by decide) (by decide)) fun b u _ => ?_
  split
  · exact (hg _ _ u).bind fun n v _ => .pure fun hn hkey => .plain rfl (.cons hkey (.single hn))
  · exact .pure id

theorem level_propertyFrom {start : Nat} {isAsync : Bool} :
    Level tokens faults counts (Node.Fine tokens faults) (propertyFrom g start isAsync) s := by
  refine (level_propertyKey hg).bind fun key u _ => ?_
  refine .look ?_
  split
  · exact (hg _ _ u).bind fun n v _ => .finish fun r hn hkey => .plain rfl (.cons hkey (.single hn))
  · refine .step (.nextMark (by decide) (by decide)) fun b v _ => ?_
    split
    · exact (hg _ _ v).bind fun n w _ => .finish fun r hn hkey => .plain rfl (.cons hkey (.single hn))
    · split
      · exact (level_shorthandValue hg).bind fun n w _ => .finish fun r hn hkey =>
          .plain rfl (.cons hkey (.single (hn hkey)))
      · exact .look (.fail rfl)

theorem level_objectMember : Level tokens faults counts (Node.Fine tokens faults) (objectMember g) s := by
  refine .offset (.step (.nextMark (by decide) (by decide)) fun b u _ => ?_)
  split
  · exact (hg _ _ u).bind fun n v _ => .finish fun r h => .plain rfl (.single h)
  · refine .step (.nextIf fun h => ?_) fun isAsync v _ => .step (.nextMark (by decide) (by decide)) fun isGenerator w _ =>
      .step (.nextIf fun h => ?_) fun _ z _ => level_propertyFrom hg
    · rw [Bool.and_eq_true] at h
      exact Level.noBrace_of_atKeyword h.1
    · simp only [atAccessor, Bool.and_eq_true, Bool.or_eq_true] at h
      exact h.2.1.elim Level.noBrace_of_atKeyword Level.noBrace_of_atKeyword

variable (hb : BalancedBraces tokens)
include hb

theorem level_objectLiteral : Level tokens faults counts (Node.Fine tokens faults) (objectLiteral g) s :=
  .assume fun _ hc => .offset (.braces hb closing_expect (fun _ h => h) hc
    (.withNoIn (.collectUntil (P := Node.Fine tokens faults) fun u _ _ => (level_objectMember hg).bind fun n v _ =>
      .step level_separator fun _ w _ => .pure fun h m hm => by cases hm; exact h))
    fun items v c _ _ _ => .finish fun r hitems _ => .plain rfl hitems)

/-! ### Parameters -/

theorem level_parameterFrom {start : Nat} {isRest : Bool} :
    Level tokens faults counts (Node.Fine tokens faults) (parameterFrom g start isRest) s := by
  have hfallback : ∀ u (name : String) (pattern : Option Node), Level tokens faults counts
      (fun n => (∀ m ∈ pattern, m.Fine tokens faults) → n.Fine tokens faults) (do
        let fallback ← if ← nextMark .equals then some <$> allowIn (g .assignment) else pure none
        finish start (.parameter name pattern fallback isRest)) u := by
    intro u name pattern
    refine .step (.nextMark (by decide) (by decide)) fun b v _ => ?_
    split
    · exact (level_some (.withNoIn (hg _ _ _))).bind fun fallback w _ => .finish fun r hfallback hpattern =>
        .plain rfl (.append (.optional hpattern) (.optional hfallback))
    · exact level_none.bind fun fallback w _ => .finish fun r hfallback hpattern =>
        .plain rfl (.append (.optional hpattern) (.optional hfallback))
  have hname : Level tokens faults counts (Node.Fine tokens faults) (do
      let name ← bindingName
      let p ← pure (name, none)
      let fallback ← if ← nextMark .equals then some <$> allowIn (g .assignment) else pure none
      finish start (.parameter p.1 p.2 fallback isRest)) s :=
    .step .bindingName fun name u _ => (hfallback u name none).mono fun _ hn => hn fun _ h => by cases h
  refine .look ?_
  cases hk : s.kind with
  | punct mark =>
    cases mark
    case openBrace =>
      exact (level_objectLiteral hg hb).bind fun n u _ => (hfallback u "" (some n)).mono fun _ hn hpattern =>
        hn fun m hm => by cases hm; exact hpattern
    case openBracket =>
      exact (level_arrayLiteral hg).bind fun n u _ => (hfallback u "" (some n)).mono fun _ hn hpattern =>
        hn fun m hm => by cases hm; exact hpattern
    all_goals exact hname
  | _ => exact hname

theorem level_parametersFrom : ∀ (rounds : Nat) (s : ParserState),
    Level tokens faults counts (AllFine tokens faults) (parametersFrom g rounds) s
  | 0, _ => .pure .nil
  | rounds + 1, s => by
    rw [parametersFrom]
    refine .look ?_
    split
    · exact .pure .nil
    · refine .offset (.step (.nextMark (by decide) (by decide)) fun isRest u _ =>
        (level_parameterFrom hg hb).bind fun parameter v _ => .look ?_)
      split
      · exact .pure .single
      · exact .step (.expect (by decide) (by decide)) fun _ w _ => (level_parametersFrom rounds w).bind
          fun others x _ => .pure fun hothers hparameter => .cons hparameter hothers

theorem level_parameterList : Level tokens faults counts (AllFine tokens faults) (parameterList g) s :=
  .step (.expect (by decide) (by decide)) fun _ u _ => .look ((level_parametersFrom hg hb _ u).bind fun params v _ =>
    .step (.expect (by decide) (by decide)) fun _ w _ => .pure id)

/-! ### Bodies -/

theorem level_listedStatement (hk : s.kind ≠ .punct .closeBrace) :
    Level tokens faults counts (fun o => ∀ n ∈ o, n.Fine tokens faults) (listedStatement g) s := by
  refine .look ?_
  split
  · rename_i hr
    exact .statementOrSkip hb hr hk (hg _ _ s)
  · exact (hg _ _ s).bind fun n u _ => .pure fun hn m hm => by cases hm; exact hn

theorem level_statementList {done : ParserState → Bool}
    (hdone : ∀ t : ParserState, t.kind = .punct .closeBrace → done t = true) :
    Level tokens faults counts (AllFine tokens faults) (statementList g done) s :=
  .collectUntil fun t _ ht => level_listedStatement hg hb fun hk => by
    rw [hdone t hk, Bool.or_true] at ht
    cases ht

/-- The braces of a block match, unless a class element was skipped inside. -/
theorem level_block : Level tokens faults counts (Node.Fine tokens faults) (block g) s := by
  refine .assume fun hs hc => .offset (.braces hb closing_closeBrace (fun _ h => h) hc
    (level_statementList hg hb fun t hk => ParserState.atMark_iff.2 hk) fun body v stop hv hvk hclose => .pure ?_)
  intro hbody hmatched
  rcases closes_of_closeBrace hclose with ⟨-, rfl, -⟩ | hend
  · refine .of_own (fun _ _ => hmatched.imp_right ?_) (fun r hr => by cases hr) hbody
    rintro ⟨fault, hmem, hclass, hle⟩
    exact ⟨fault, hmem, hclass, Nat.lt_of_le_of_lt hle (hv.offset_lt_stop (by rw [hvk]; simp))⟩
  · rw [hvk] at hend
    cases hend

theorem level_functionRest {name : Option String} {isAsync : Bool} : Level tokens faults counts
    (fun parts => AllFine tokens faults (parts.params ++ [parts.body])) (functionRest g name isAsync) s :=
  (level_parameterList hg hb).bind fun _ _ _ => (Level.withNoIn (level_block hg hb)).bind fun _ _ _ =>
    .pure fun hbody hparams => .append hparams (.single hbody)

theorem level_method {isAsync : Bool} : Level tokens faults counts (Node.Fine tokens faults) (method g isAsync) s :=
  .offset ((level_functionRest hg hb).bind fun _ _ _ => .pure fun h => .plain rfl h)

/-! ### Classes -/

omit hb in
theorem level_elementName : Level tokens faults counts (fun _ => True) (elementName g) s := by
  refine .look ?_
  dsimp only
  split
  · rename_i hk
    exact .step (.next (Level.noBrace_of_kind hk (by simp) (by simp))) fun _ u _ =>
      .step .anyWord fun _ v _ => .pure trivial
  · rename_i hk
    exact .step (.next (Level.noBrace_of_kind hk (by simp) (by simp))) fun _ u _ => .pure trivial
  · rename_i hk
    exact .step (.next (Level.noBrace_of_kind hk (by simp) (by simp))) fun _ u _ => .pure trivial
  · rename_i hk
    exact .step (.next (Level.noBrace_of_kind hk (by simp) (by simp))) fun _ u _ =>
      (Level.withNoIn (hg _ _ _)).bind fun _ v _ => .step (.expect (by decide) (by decide)) fun _ w _ =>
        .pure fun _ => trivial
  · split
    · rename_i hk
      exact .step (.next (Level.noBrace_of_isWord hk)) fun _ u _ => .pure trivial
    · exact .fail rfl

omit hg hb in
theorem noBrace_of_atAccessor (h : atAccessor s = true) : s.NoBrace := by
  rw [atAccessor, Bool.and_eq_true, Bool.or_eq_true] at h
  exact h.1.elim Level.noBrace_of_atKeyword Level.noBrace_of_atKeyword

omit hg hb in
theorem level_accessorKind {isAsync isGenerator : Bool} :
    Level tokens faults counts (fun _ => True) (accessorKind isAsync isGenerator) s := by
  refine .look ?_
  split
  · rename_i h
    rw [Bool.and_eq_true] at h
    exact .step (.next (noBrace_of_atAccessor h.2)) fun _ u _ => .pure trivial
  · exact .pure trivial

theorem level_elementFrom {start : Nat} {isStatic isAsync isGenerator : Bool} :
    Level tokens faults counts (Node.Fine tokens faults) (elementFrom g start isStatic isAsync isGenerator) s := by
  refine .step level_accessorKind fun kind u _ => .step (level_elementName hg) fun key v _ => .look ?_
  split
  · exact .offset ((level_functionRest hg hb).bind fun parts w _ => .pure fun h =>
      .plain rfl (.single (.plain rfl h)))
  · refine .step (.nextMark (by decide) (by decide)) fun b w _ => ?_
    split
    · exact (level_some (hg _ _ w)).bind fun value x _ => .step .semicolon fun _ y _ => .finish fun r h =>
        .plain rfl (.optional h)
    · exact level_none.bind fun value x _ => .step .semicolon fun _ y _ => .finish fun r h =>
        .plain rfl (.optional h)

theorem level_elementAfterAccess {start : Nat} :
    Level tokens faults counts (fun o => ∀ n ∈ o, n.Fine tokens faults) (elementAfterAccess g start) s := by
  refine .look ?_
  split
  · rename_i h
    rw [Bool.and_eq_true] at h
    exact .step (.next (Level.noBrace_of_atKeyword h.1)) fun _ u _ => (level_block hg hb).bind fun _ v _ =>
      .pure fun _ _ hn => by cases hn
  · refine .step (.nextIf fun h => ?_) fun isStatic u _ => .step (.nextIf fun h => ?_) fun isAsync v _ =>
      .step (.nextMark (by decide) (by decide)) fun isGenerator w _ =>
        (level_elementFrom hg hb).bind fun n x _ => .pure fun hn m hm => by cases hm; exact hn
    · rw [Bool.and_eq_true] at h
      exact Level.noBrace_of_atKeyword h.1
    · rw [Bool.and_eq_true, Bool.and_eq_true] at h
      exact Level.noBrace_of_atKeyword h.1.1

theorem level_classElement : Level tokens faults counts (fun o => ∀ n ∈ o, n.Fine tokens faults) (classElement g) s := by
  refine .offset ((Level.collectUntil (P := fun _ => True) fun t _ ht => ?_).bind fun _ u _ =>
    (level_elementAfterAccess hg hb).mono fun _ h _ => h)
  rw [Bool.not_eq_false', atAccessModifier, Bool.and_eq_true, Bool.or_eq_true, Bool.or_eq_true] at ht
  have hk : t.NoBrace := ht.1.elim (·.elim Level.noBrace_of_atReserved Level.noBrace_of_atReserved)
    Level.noBrace_of_atReserved
  exact .step (.next hk) fun _ u _ => .pure fun _ _ => trivial

/-- The pieces of a class are fine, and the braces match, unless a fault shows in them. -/
structure ClassParts.Fine (tokens : Array Token) (faults : List ParseError) (parts : ClassParts Node) : Prop where
  pieces : AllFine tokens faults (parts.superclass.toList ++ parts.members)
  body : Matched tokens parts.bodyRange ∨ Faulty faults parts.bodyRange

/-- A class body. An element that is skipped may leave the height too great, but its fault shows
there, which counts as it is behind the word `class`. -/
theorem level_classBody {name : Option String} {superclass : Option Node} (hcounts : ∀ p, s.offset ≤ p → counts p) :
    Level tokens faults counts (fun parts => (∀ n ∈ superclass, n.Fine tokens faults) → parts.Fine tokens faults) (do
      let bodyStart ← offset
      let _ ← expect .openBrace
      let members ← collectUntil (fun s => s.atMark .closeBrace || s.atEnd) (listedElement g)
      let stop ← closeBrace
      return ({ name, superclass, members, bodyRange := ⟨bodyStart, stop⟩ } : ClassParts Node)) s := by
  refine .assume fun hs _ => .offset (.braces hb closing_closeBrace
    (fun p hp => (Nat.le_trans hp.choose_spec.2.2.1 hp.choose_spec.2.2.2 : s.offset ≤ p)) hcounts
    (.collectUntil (P := Node.Fine tokens faults) fun t ht hdone => ?_) fun members v stop hv hvk hclose => .pure ?_)
  · have hle := Nat.le_trans (s.follows_advance.offset_le hs.toSound) (ht (hs.follows s.follows_advance))
    refine .listedElement hb (fun hk => ?_) (fun p hp => Nat.le_trans hle hp) (level_classElement hg hb)
    rw [ParserState.atMark_iff.2 hk] at hdone
    cases hdone
  · intro hmembers hmatched hsuper
    rcases closes_of_closeBrace hclose with ⟨-, rfl, -⟩ | hend
    · refine ⟨.append (.optional hsuper) hmembers, hmatched.imp_right ?_⟩
      rintro ⟨fault, hmem, hstart, hle⟩
      exact ⟨fault, hmem, hstart, Nat.lt_of_le_of_lt hle (hv.offset_lt_stop (by rw [hvk]; simp))⟩
    · rw [hvk] at hend
      cases hend

omit hg hb in
/-- What is behind the word `class` counts. -/
theorem counts_of_class (hs : s.Over tokens) (hk : s.kind = .keyword .classWord)
    (hc : ∀ p, ClassBehind tokens s.offset p → counts p) {p : Nat} (hp : s.offset ≤ p) : counts p := by
  refine hc p ⟨s.current, ?_, hk, Nat.le_refl _, hp⟩
  rw [hs.current_eq_tokens hs.inside_tokens]
  exact Array.getElem_mem _

theorem level_classParts {requireName : Bool} :
    Level tokens faults counts (ClassParts.Fine tokens faults) (classParts g requireName) s := by
  refine .assume fun hs hc => (Level.expectKind (by simp) (by simp)).bind fun _ u hu => ?_
  obtain ⟨hclass, -, rfl⟩ := expectKind_ok hu
  have hcounts : ∀ v, s.Follows v → ∀ p, v.offset ≤ p → counts p := fun v hv p hp =>
    counts_of_class hs hclass hc (Nat.le_trans (hv.offset_le hs.toSound) hp)
  have hextends : ∀ (name : Option String) v, s.Follows v → Level tokens faults counts (ClassParts.Fine tokens faults)
      (do
        let superclass ←
          if ← nextIf (·.atKeyword .extendsWord) then some <$> g .leftHandSide else pure none
        let bodyStart ← offset
        let _ ← expect .openBrace
        let members ← collectUntil (fun s => s.atMark .closeBrace || s.atEnd) (listedElement g)
        let stop ← closeBrace
        return ({ name, superclass, members, bodyRange := ⟨bodyStart, stop⟩ } : ClassParts Node)) v := by
    intro name v hv
    refine (Level.nextIf fun h => Level.noBrace_of_atKeyword h).after fun b w _ hw => ?_
    split
    · exact (level_some (hg _ _ w)).after fun superclass x _ hx =>
        (level_classBody hg hb (hcounts x ((hv.trans hw).trans hx))).mono fun _ h hsuper _ => h hsuper
    · exact (level_classBody hg hb (hcounts w (hv.trans hw))).mono fun _ h _ => h fun _ hn => by cases hn
  refine .look ?_
  split
  · exact (Level.map (Q := fun _ => True) .bindingName fun _ _ => trivial).after fun name v _ hv =>
      (hextends name v (s.follows_advance.trans hv)).mono fun _ h _ _ => h
  · exact (hextends none _ s.follows_advance).mono fun _ h _ => h

end

end Typeahead
