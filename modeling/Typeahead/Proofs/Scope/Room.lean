/-
# Room for the scopes of a tree

In a tree whose nodes end no sooner than what they hold, the binder's walk over a node opens scopes
between the start of the node and its stop. Where no function and no class in the node is around an
offset, no scope of one contains the offset.

The cases are those of the binder itself, and each of its walks over some nodes adds scopes in the
room that all of them have.

Key definitions: `NodeKind.bindsThis`, `Node.Room`.
Key theorems: `fills_function`, `fills_statement`, `fills_statements`.
-/
import Typeahead.Proofs.Scope.Additions
import Typeahead.Proofs.Scope.Spread

namespace Typeahead

open Binder

/-- A node of this kind has a `this` of its own. -/
def NodeKind.bindsThis : NodeKind → Bool
  | .functionExpression _ | .functionDeclaration _ | .classExpression _ | .classDeclaration _ => true
  | _ => false

/-- The offset lies in the node, whose end does not belong to it. -/
def Node.Around (n : Node) (offset : Nat) : Prop := n.start ≤ offset ∧ offset < n.stop

/-- A tree lies between two offsets, in order and with every node around those in it, and no
function and no class in it is around another offset. -/
structure Node.Room (offset lo hi : Nat) (n : Node) : Prop where
  placed : n.Placed
  tight : n.Tight
  starts : lo ≤ n.start
  stops : n.stop ≤ hi
  clear : ∀ m, n.Contains m → m.kind.bindsThis = true → ¬ m.Around offset

/-- Some trees lie between two offsets. -/
def AllRoom (offset lo hi : Nat) (nodes : List Node) : Prop := ∀ n ∈ nodes, n.Room offset lo hi

/-- In each of some trees at most so many scopes lie one in another. -/
def AllScopesWithin (most : Nat) (nodes : List Node) : Prop := ∀ n ∈ nodes, n.ScopesWithin most

variable {offset lo hi most : Nat}

section

variable {n : Node} {l l' : List Node} {range : TextRange} {kind : NodeKind}

theorem AllRoom.head (h : AllRoom offset lo hi (n :: l)) : n.Room offset lo hi := h n List.mem_cons_self

theorem AllRoom.tail (h : AllRoom offset lo hi (n :: l)) : AllRoom offset lo hi l :=
  fun m hm => h m (List.mem_cons_of_mem _ hm)

theorem AllRoom.left (h : AllRoom offset lo hi (l ++ l')) : AllRoom offset lo hi l :=
  fun n hn => h n (List.mem_append_left _ hn)

theorem AllRoom.right (h : AllRoom offset lo hi (l ++ l')) : AllRoom offset lo hi l' :=
  fun n hn => h n (List.mem_append_right _ hn)

theorem AllScopesWithin.head (h : AllScopesWithin most (n :: l)) : n.ScopesWithin most := h n List.mem_cons_self

theorem AllScopesWithin.tail (h : AllScopesWithin most (n :: l)) : AllScopesWithin most l :=
  fun m hm => h m (List.mem_cons_of_mem _ hm)

theorem AllScopesWithin.left (h : AllScopesWithin most (l ++ l')) : AllScopesWithin most l :=
  fun n hn => h n (List.mem_append_left _ hn)

theorem AllScopesWithin.right (h : AllScopesWithin most (l ++ l')) : AllScopesWithin most l' :=
  fun n hn => h n (List.mem_append_right _ hn)

theorem Node.ScopesWithin.counted (h : Node.ScopesWithin most ⟨range, kind⟩) : AllScopesWithin most kind.counted :=
  fun _ hn => h.of_mem hn

theorem Node.Room.mono {lo' hi' : Nat} (h : n.Room offset lo' hi') (hlo : lo ≤ lo') (hhi : hi' ≤ hi) :
    n.Room offset lo hi :=
  { h with
    starts := Nat.le_trans hlo h.starts
    stops := Nat.le_trans h.stops hhi }

/-- The pieces of a node lie where the node does. -/
theorem Node.Room.pieces (h : Node.Room offset lo hi ⟨range, kind⟩) :
    AllRoom offset range.start range.stop kind.pieces :=
  fun m hm =>
    have hcontains := Node.Contains.inside (mem_children_of_mem_pieces hm) (.self m)
    ⟨h.placed.of_mem hm, h.tight.of_contains hcontains, h.placed.inOrder.starts m hm,
      (h.tight.endsWithin.of_contains hcontains).stop_le, fun k hk => h.clear k (hcontains.trans hk)⟩

/-- The pieces of a node lie where there is room for the node. -/
theorem Node.Room.inner (h : Node.Room offset lo hi ⟨range, kind⟩) : AllRoom offset lo hi kind.pieces :=
  fun m hm => (h.pieces m hm).mono h.starts h.stops

theorem Node.Room.not_around (h : n.Room offset lo hi) (hk : n.kind.bindsThis = true) : ¬ n.Around offset :=
  h.clear n (.self n) hk

/-- The value of a property, and its key where that is an expression. -/
theorem Node.Room.property {key value : Node} {computed shorthand method : Bool}
    (h : Node.Room offset lo hi ⟨range, .property key value computed shorthand method⟩) :
    value.Room offset lo hi ∧ (computed = true → key.Room offset lo hi) := by
  have hp := h.inner
  rw [NodeKind.pieces] at hp
  split at hp
  · rename_i hshort
    exact ⟨hp.head, fun hc => by simp [hc] at hshort⟩
  · exact ⟨hp.tail.head, fun _ => hp.head⟩

end

/-! ### Functions -/

/-- Bind the parameters and the body of a function in its scope. -/
def Binder.functionBody : FunctionParts Node → Binder → Binder
  | ⟨_, params, ⟨_, .block body⟩, _⟩, b => statements body ((parameters params b).hoist body)
  | ⟨_, params, body, _⟩, b => statement body (parameters params b)

theorem function_eq (parts : FunctionParts Node) (start : Nat) (symbol : Option Symbol) (isStatic : Bool)
    (b : Binder) :
    function parts start symbol isStatic b =
      (functionBody parts ((b.enter .function start).setFunction symbol isStatic)).leave parts.body.stop := by
  obtain ⟨_, params, ⟨range, kind⟩, _⟩ := parts
  cases kind <;> rfl

/-- A function adds its scope and what its parameters and its body add. -/
theorem fills_function {range : TextRange} {kind : NodeKind} {parts : FunctionParts Node} {b : Binder}
    (symbol : Option Symbol) (isStatic : Bool) (h : Node.Room offset lo hi ⟨range, kind⟩) (hk : kind.bindsThis = true)
    (hp : AllRoom offset range.start range.stop (parts.params ++ [parts.body]))
    (hbody : ((b.enter .function range.start).setFunction symbol isStatic).Fills offset range.start range.stop most
      (functionBody parts ((b.enter .function range.start).setFunction symbol isStatic))) :
    b.Fills offset range.start range.stop (most + 1) (function parts range.start symbol isStatic b) := by
  rw [function_eq]
  exact .scope (.setFunction _ symbol isStatic) hbody (Nat.le_refl _) (Nat.le_of_lt h.placed.start_lt_stop)
    hp.right.head.stops (Nat.le_refl _) fun _ => h.not_around hk

/-! ### Walks -/

mutual
/-- **The walk over a statement** adds scopes in the room of the statement. -/
theorem fills_statement : ∀ {most lo hi : Nat} (n : Node) (b : Binder), n.Room offset lo hi → n.ScopesWithin most →
    b.Fills offset lo hi most (statement n b)
  | most, lo, hi, ⟨range, kind⟩, b, h, hs => by
    have hp := h.pieces
    refine Fills.mono ?_ h.starts h.stops (Nat.le_refl most)
    cases kind with
    | variableDeclaration kind declarations => exact fills_declarators kind declarations b hp hs.counted
    | functionDeclaration parts =>
      obtain ⟨k, rfl, hscoped⟩ := hs.of_scope rfl
      have hwalk := fun symbol => fills_function symbol false h rfl hp
        (fills_functionBody parts ((b.enter .function range.start).setFunction symbol false) hp hscoped)
      rw [statement]
      split
      · exact (hwalk _).before (.refineResult ..)
      · exact hwalk _
    | classDeclaration parts =>
      exact .after (.declare ..) (fills_classBody parts _ _ h (.inr rfl) hs)
    | expressionStatement n =>
      have hwalk := fills_expression n b hp.head hs.counted.head
      rw [statement]
      split
      · exact hwalk.before (.trackAssignment ..)
      · exact hwalk
    | «return» argument => exact fills_optional argument b hp hs.counted
    | throw argument => exact fills_expression argument b hp.head hs.counted.head
    | block body =>
      obtain ⟨k, rfl, hscoped⟩ := hs.of_scope rfl
      exact .scope (.of_relabels (.rfl _)) (.after (.hoist _ body) (fills_statements body _ hp hscoped))
        (Nat.le_refl _) (Nat.le_of_lt h.placed.start_lt_stop) (Nat.le_refl _) (Nat.le_refl _) nofun
    | «if» test consequent alternate =>
      have hc := hs.counted
      exact (fills_expression test b hp.head hc.head).trans
        ((fills_statement consequent _ hp.tail.head hc.tail.head).trans
        (fills_optionalStatement alternate _ hp.tail.tail hc.tail.tail))
    | «while» test body =>
      exact (fills_expression test b hp.head hs.counted.head).trans
        (fills_statement body _ hp.tail.head hs.counted.tail.head)
    | doWhile body test =>
      exact (fills_expression test b hp.tail.head hs.counted.head).trans
        (fills_statement body _ hp.head hs.counted.tail.head)
    | «for» init test update body =>
      obtain ⟨k, rfl, hc⟩ := hs.of_scope rfl
      have hc : AllScopesWithin k (init.toList ++ test.toList ++ update.toList ++ [body]) := hc
      have hinit := fills_loopStart init (b.enter .block range.start) hp.left.left.left hc.left.left.left
      exact .scope (.of_relabels (.rfl _))
        (hinit.trans ((fills_optional test _ hp.left.left.right hc.left.left.right).trans
        ((fills_optional update _ hp.left.right hc.left.right).trans
          (fills_statement body _ hp.right.head hc.right.head))))
        (Nat.le_refl _) (Nat.le_of_lt h.placed.start_lt_stop) (Nat.le_refl _) (Nat.le_refl _) nofun
    | forInOf left right body isOf =>
      obtain ⟨k, rfl, hc⟩ := hs.of_scope rfl
      have hc : AllScopesWithin k [left, right, body] := hc
      have hright := fills_expression right (b.enter .block range.start) hp.tail.head hc.tail.head
      have hleft := hp.head
      have hwithin := hc.head
      obtain ⟨leftRange, leftKind⟩ := left
      cases leftKind with
      | variableDeclaration kind declarations =>
        exact .scope (.of_relabels (.rfl _)) (hright.trans ((fills_loopTargets _ _ kind declarations _ hleft.inner
          hwithin.counted).trans (fills_statement body _ hp.tail.tail.head hc.tail.tail.head)))
          (Nat.le_refl _) (Nat.le_of_lt h.placed.start_lt_stop) (Nat.le_refl _) (Nat.le_refl _) nofun
      | _ =>
        exact .scope (.of_relabels (.rfl _)) (hright.trans ((fills_expression _ _ hleft hwithin).trans
          (fills_statement body _ hp.tail.tail.head hc.tail.tail.head)))
          (Nat.le_refl _) (Nat.le_of_lt h.placed.start_lt_stop) (Nat.le_refl _) (Nat.le_refl _) nofun
    | switch discriminant branches =>
      have hdiscriminant := fills_expression discriminant b hp.head hs.counted.head
      obtain ⟨k, rfl, hc⟩ := hs.of_scope rfl
      have hc : AllScopesWithin k (discriminant :: branches) := hc
      exact hdiscriminant.trans (.scope (.of_relabels (.rfl _)) (fills_cases branches _ hp.tail hc.tail)
        (Nat.le_refl _) (Nat.le_of_lt h.placed.start_lt_stop) (Nat.le_refl _) (Nat.le_refl _) nofun)
    | «try» block handler finalizer =>
      have hc := hs.counted
      exact (fills_statement block b hp.head hc.head).trans
        ((fills_catchClause handler _ hp.tail.left hc.tail.left).trans
          (fills_optionalStatement finalizer _ hp.tail.right hc.tail.right))
    | _ => exact .rfl b

/-- The walk over statements adds scopes in the room that they all have. -/
theorem fills_statements :
    ∀ {most lo hi : Nat} (l : List Node) (b : Binder), AllRoom offset lo hi l → AllScopesWithin most l →
    b.Fills offset lo hi most (statements l b)
  | _, _, _, [], b, _, _ => .rfl b
  | _, _, _, n :: rest, b, h, hs =>
    (fills_statement n b h.head hs.head).trans (fills_statements rest _ h.tail hs.tail)

theorem fills_optionalStatement : ∀ {most lo hi : Nat} (o : Option Node) (b : Binder), AllRoom offset lo hi o.toList →
    AllScopesWithin most o.toList → b.Fills offset lo hi most (optionalStatement o b)
  | _, _, _, none, b, _, _ => .rfl b
  | _, _, _, some n, b, h, hs => fills_statement n b h.head hs.head

theorem fills_loopStart : ∀ {most lo hi : Nat} (o : Option Node) (b : Binder), AllRoom offset lo hi o.toList →
    AllScopesWithin most o.toList → b.Fills offset lo hi most (loopStart o b)
  | _, _, _, none, b, _, _ => .rfl b
  | _, _, _, some ⟨_, kind⟩, b, h, hs => by
    cases kind with
    | variableDeclaration kind declarations =>
      exact fills_declarators kind declarations b h.head.inner hs.head.counted
    | _ => exact fills_expression _ b h.head hs.head

theorem fills_loopTargets :
    ∀ {most lo hi : Nat} (scope : ScopeId) (iterated : Ty) (kind : VariableKind) (l : List Node)
    (b : Binder), AllRoom offset lo hi l → AllScopesWithin most l →
      b.Fills offset lo hi most (loopTargets scope iterated kind l b)
  | _, _, _, _, _, _, [], b, _, _ => .rfl b
  | _, _, _, scope, iterated, kind, ⟨_, declaration⟩ :: rest, b, h, hs => by
    cases declaration with
    | variableDeclarator target init =>
      exact (fills_pattern scope _ _ target b h.head.inner.head fun m hm =>
        hs.head.of_mem (List.mem_append_left _ hm)).trans
          (fills_loopTargets scope iterated kind rest _ h.tail hs.tail)
    | _ => exact fills_loopTargets scope iterated kind rest b h.tail hs.tail

theorem fills_cases :
    ∀ {most lo hi : Nat} (l : List Node) (b : Binder), AllRoom offset lo hi l → AllScopesWithin most l →
    b.Fills offset lo hi most (Binder.cases l b)
  | _, _, _, [], b, _, _ => .rfl b
  | _, _, _, ⟨_, branch⟩ :: rest, b, h, hs => by
    have hp := h.head.inner
    have hc := hs.head.counted
    cases branch with
    | switchCase test consequent =>
      exact (fills_optional test b hp.left hc.left).trans (.after (.hoist _ consequent)
        ((fills_statements consequent _ hp.right hc.right).trans (fills_cases rest _ h.tail hs.tail)))
    | _ => exact fills_cases rest b h.tail hs.tail

theorem fills_catchClause : ∀ {most lo hi : Nat} (o : Option Node) (b : Binder), AllRoom offset lo hi o.toList →
    AllScopesWithin most o.toList → b.Fills offset lo hi most (catchClause o b)
  | _, _, _, none, b, _, _ => .rfl b
  | _, _, _, some ⟨_, kind⟩, b, h, hs => by
    have hp := h.head.pieces
    have hwithin := hs.head
    cases kind with
    | catchClause param body =>
      obtain ⟨bodyRange, bodyKind⟩ := body
      cases bodyKind with
      | block body =>
        obtain ⟨k, rfl, hc⟩ := hwithin.of_scope rfl
        have hbody : Node.ScopesWithin k ⟨bodyRange, .block body⟩ := hc _ List.mem_cons_self
        exact Fills.mono (.scope (.of_relabels (.rfl _)) (.after (.declare ..) (.after (.hoist _ body)
          (fills_statements body _ hp.head.inner hbody.counted))) (Nat.le_refl _)
          (Nat.le_of_lt h.head.placed.start_lt_stop) (Nat.le_refl _) (Nat.le_refl _) nofun) h.head.starts h.head.stops
          (Nat.le_refl _)
      | _ => exact .rfl b
    | _ => exact .rfl b

theorem fills_declarators : ∀ {most lo hi : Nat} (kind : VariableKind) (l : List Node) (b : Binder),
    AllRoom offset lo hi l → AllScopesWithin most l → b.Fills offset lo hi most (declarators kind l b)
  | _, _, _, _, [], b, _, _ => .rfl b
  | _, _, _, kind, ⟨_, declaration⟩ :: rest, b, h, hs => by
    have hp := h.head.inner
    have hc := hs.head.counted
    cases declaration with
    | variableDeclarator target init =>
      rw [declarators]
      split
      · exact .after (.declare ..) ((fills_classValue _ init _ hp.tail hc.right).trans
          (fills_declarators kind rest _ h.tail hs.tail))
      · exact (fills_pattern _ _ _ target b hp.head hc.left).trans ((fills_optional init _ hp.tail hc.right).trans
          (fills_declarators kind rest _ h.tail hs.tail))
    | _ => exact fills_declarators kind rest b h.tail hs.tail

theorem fills_classValue : ∀ {most lo hi : Nat} (symbol : Symbol) (o : Option Node) (b : Binder),
    AllRoom offset lo hi o.toList → AllScopesWithin most o.toList → b.Fills offset lo hi most (classValue symbol o b)
  | _, _, _, _, none, b, _, _ => .rfl b
  | _, _, _, symbol, some n, b, h, hs => fills_parenthesizedClass symbol n b h.head hs.head

theorem fills_parenthesizedClass :
    ∀ {most lo hi : Nat} (symbol : Symbol) (n : Node) (b : Binder), n.Room offset lo hi →
    n.ScopesWithin most → b.Fills offset lo hi most (parenthesizedClass symbol n b)
  | most, _, _, symbol, ⟨_, kind⟩, b, h, hs => by
    cases kind with
    | parenthesized inner => exact fills_parenthesizedClass symbol inner b h.inner.head hs.counted.head
    | classExpression parts =>
      exact Fills.mono (fills_classBody parts symbol b h (.inl rfl) hs) h.starts h.stops (Nat.le_refl most)
    | _ => exact .rfl b

theorem fills_pattern : ∀ {most lo hi : Nat} (scope : ScopeId) (source : Option Ty) (kind : SymbolKind) (n : Node)
    (b : Binder), n.Room offset lo hi → n.PatternWithin most →
      b.Fills offset lo hi most (pattern scope source kind n b)
  | _, _, _, scope, source, kind, ⟨_, nodeKind⟩, b, h, hs => by
    have hp := h.inner
    cases nodeKind with
    | identifier name => exact .relabels (.declare b scope name kind source)
    | objectLiteral items =>
      exact fills_propertyPatterns scope source kind items b hp fun n hn m hm => hs m (List.mem_flatMap.2 ⟨n, hn, hm⟩)
    | arrayLiteral items => exact fills_elementPatterns scope _ kind items b hp (hs _ List.mem_cons_self).counted
    | assignment operator target value =>
      have hc := (hs _ List.mem_cons_self).counted
      exact (fills_expression value b hp.tail.head hc.tail.head).trans
        (fills_pattern scope _ kind target _ hp.head hc.head.patternWithin)
    | _ => exact .rfl b

theorem fills_propertyPatterns : ∀ {most lo hi : Nat} (scope : ScopeId) (source : Option Ty) (kind : SymbolKind)
    (l : List Node) (b : Binder), AllRoom offset lo hi l → (∀ n ∈ l, AllScopesWithin most n.unpackedItem) →
      b.Fills offset lo hi most (propertyPatterns scope source kind l b)
  | _, _, _, _, _, _, [], b, _, _ => .rfl b
  | _, _, _, scope, source, kind, ⟨_, item⟩ :: rest, b, h, hs => by
    have hrest := fun b => fills_propertyPatterns scope source kind rest b h.tail
      fun n hn => hs n (List.mem_cons_of_mem _ hn)
    have hitem := hs _ List.mem_cons_self
    cases item with
    | property key value computed shorthand method =>
      have hvalue := h.head.property.1
      refine Fills.trans ?_ (hrest _)
      obtain ⟨valueRange, valueKind⟩ := value
      cases valueKind with
      | functionExpression parts => exact .rfl b
      | _ => exact fills_pattern scope _ kind _ b hvalue hitem.head.patternWithin
    | spread argument =>
      exact (fills_pattern scope _ kind argument b h.head.inner.head hitem.head.patternWithin).trans (hrest _)
    | _ => exact hrest b

theorem fills_elementPatterns : ∀ {most lo hi : Nat} (scope : ScopeId) (element : Option Ty) (kind : SymbolKind)
    (l : List Node) (b : Binder), AllRoom offset lo hi l → AllScopesWithin most l →
      b.Fills offset lo hi most (elementPatterns scope element kind l b)
  | _, _, _, _, _, _, [], b, _, _ => .rfl b
  | _, _, _, scope, element, kind, ⟨_, item⟩ :: rest, b, h, hs => by
    have hrest := fun b => fills_elementPatterns scope element kind rest b h.tail hs.tail
    have hitem := hs.head
    cases item with
    | spread argument =>
      exact (fills_pattern scope _ kind argument b h.head.inner.head hitem.counted.head.patternWithin).trans (hrest _)
    | _ => exact (fills_pattern scope _ kind _ b h.head hitem.patternWithin).trans (hrest _)

theorem fills_parameters : ∀ {most lo hi : Nat} (l : List Node) (b : Binder), AllRoom offset lo hi l →
    AllScopesWithin most l → b.Fills offset lo hi most (parameters l b)
  | _, _, _, [], b, _, _ => .rfl b
  | _, _, _, ⟨_, parameter⟩ :: rest, b, h, hs => by
    have hp := h.head.inner
    have hc := hs.head.counted
    cases parameter with
    | parameter name target fallback isRest =>
      have hfallback := fills_optional fallback b hp.right hc.right
      cases target with
      | some target =>
        exact hfallback.trans ((fills_pattern _ _ _ target _ hp.left.head fun m hm =>
          hc m (List.mem_append_left _ (List.mem_flatMap.2 ⟨target, List.mem_cons_self, hm⟩))).trans
          (fills_parameters rest _ h.tail hs.tail))
      | none => exact hfallback.trans (.after (.declare ..) (fills_parameters rest _ h.tail hs.tail))
    | _ => exact fills_parameters rest b h.tail hs.tail

theorem fills_functionBody : ∀ {most lo hi : Nat} (parts : FunctionParts Node) (b : Binder),
    AllRoom offset lo hi (parts.params ++ [parts.body]) → AllScopesWithin most (parts.params ++ [parts.body]) →
      b.Fills offset lo hi most (functionBody parts b)
  | _, _, _, ⟨_, params, ⟨_, kind⟩, _⟩, b, h, hs => by
    have hparams := fills_parameters params b h.left hs.left
    have hbody := h.right.head
    have hwithin := hs.right.head
    cases kind with
    | block body =>
      exact hparams.trans (.after (.hoist _ body) (fills_statements body _ hbody.inner hwithin.counted))
    | _ => exact hparams.trans (fills_statement _ _ hbody hwithin)

/-- The scope of a class starts at its braces, behind the superclass. -/
theorem fills_classBody : ∀ {most lo hi : Nat} {range : TextRange} {kind : NodeKind} (parts : ClassParts Node)
    (symbol : Symbol) (b : Binder), Node.Room offset lo hi ⟨range, kind⟩ →
      (kind = .classExpression parts ∨ kind = .classDeclaration parts) → Node.ScopesWithin most ⟨range, kind⟩ →
      b.Fills offset range.start range.stop most (classBody parts symbol b)
  | most, _, _, range, _, ⟨name, superclass, members, bodyRange⟩, symbol, b, h, hk, hs => by
    have hbinds : ¬ (range.start ≤ offset ∧ offset < range.stop) := h.not_around (by rcases hk with rfl | rfl <;> rfl)
    have hp : AllRoom offset range.start range.stop (superclass.toList ++ members) := by
      rcases hk with rfl | rfl <;> exact h.pieces
    have hsuper : AllScopesWithin most superclass.toList := by
      rcases hk with rfl | rfl <;> exact fun n hn => hs.of_superclass (Option.mem_toList.1 hn)
    obtain ⟨hstart, hopen, -, hbehind⟩ :
        (NodeKind.classExpression ⟨name, superclass, members, bodyRange⟩).Braced range := by
      rcases hk with rfl | rfl <;> exact h.placed.braced
    have hstop : bodyRange.stop ≤ range.stop := by
      rcases hk with rfl | rfl <;> exact h.tight.endsWithin.body_le rfl
    obtain ⟨k, rfl, hscoped⟩ := hs.of_scope (by rcases hk with rfl | rfl <;> rfl)
    have hscoped : AllScopesWithin k members := by rcases hk with rfl | rfl <;> exact hscoped
    refine (fills_optional superclass b hp.left hsuper).trans (.scope
      (.trans (.of_relabels (.declareMembers _ symbol)) (.setClass _ symbol))
      (fills_classElements members _ (fun n hn => ?_) hscoped) hstart (Nat.le_trans (Nat.le_of_lt hopen) hstop)
      hstop (Nat.le_refl _) fun _ => ?_)
    · exact { hp.right n hn with starts := hbehind n hn }
    · exact fun hin => hbinds ⟨Nat.le_trans hstart hin.1, hin.2⟩

theorem fills_classElements : ∀ {most lo hi : Nat} (l : List Node) (b : Binder), AllRoom offset lo hi l →
    AllScopesWithin most l → b.Fills offset lo hi most (classElements l b)
  | _, _, _, [], b, _, _ => .rfl b
  | _, _, _, ⟨_, element⟩ :: rest, b, h, hs => by
    have hrest := fun b => fills_classElements rest b h.tail hs.tail
    have hp := h.head.inner
    have hc := hs.head.counted
    cases element with
    | methodMember key kind isStatic value =>
      have hvalue := hp.head
      have hwithin := hc.head
      obtain ⟨range, kind⟩ := value
      cases kind with
      | functionExpression parts =>
        obtain ⟨k, rfl, hscoped⟩ := hwithin.of_scope rfl
        exact (Fills.mono (fills_function _ isStatic hvalue rfl hvalue.pieces
          (fills_functionBody parts _ hvalue.pieces hscoped)) hvalue.starts hvalue.stops (Nat.le_refl _)).trans
            (hrest _)
      | _ => exact hrest b
    | fieldMember key value isStatic => exact (fills_optional value b hp hc).trans (hrest _)
    | _ => exact hrest b

/-- The walk over an expression adds scopes in the room of the expression. -/
theorem fills_expression : ∀ {most lo hi : Nat} (n : Node) (b : Binder), n.Room offset lo hi → n.ScopesWithin most →
    b.Fills offset lo hi most (expression n b)
  | most, lo, hi, ⟨range, kind⟩, b, h, hs => by
    have hp := h.pieces
    have hc := hs.counted
    refine Fills.mono ?_ h.starts h.stops (Nat.le_refl most)
    cases kind with
    | arrowFunction params body isAsync =>
      obtain ⟨k, rfl, hscoped⟩ := hs.of_scope rfl
      have hscoped : AllScopesWithin k (params ++ [body]) := hscoped
      have hparams := fills_parameters params (b.enter .arrow range.start) hp.left hscoped.left
      have hbody := hp.right.head
      have hwithin := hscoped.right.head
      obtain ⟨bodyRange, bodyKind⟩ := body
      cases bodyKind with
      | block body =>
        exact .scope (.of_relabels (.rfl _)) (hparams.trans (.after (.hoist _ body)
          (fills_statements body _ hbody.inner hwithin.counted)))
          (Nat.le_refl _) (Nat.le_of_lt h.placed.start_lt_stop) (Nat.le_refl _) (Nat.le_refl _) nofun
      | _ =>
        exact .scope (.of_relabels (.rfl _)) (hparams.trans (fills_expression _ _ hbody hwithin))
          (Nat.le_refl _) (Nat.le_of_lt h.placed.start_lt_stop) (Nat.le_refl _) (Nat.le_refl _) nofun
    | functionExpression parts =>
      obtain ⟨k, rfl, hscoped⟩ := hs.of_scope rfl
      have hwalk := fun symbol => fills_function symbol false h rfl hp
        (fills_functionBody parts ((b.enter .function range.start).setFunction symbol false) hp hscoped)
      rw [expression]
      split
      · exact (hwalk _).before (.define _ _ _)
      · exact hwalk _
    | classExpression parts => exact fills_classBody parts _ b h (.inl rfl) hs
    | member object property computed chained =>
      rw [expression]
      split
      · exact (fills_expression object b hp.head hc.head).trans
          (fills_expression property _ hp.tail.head hc.tail.head)
      · exact fills_expression object b hp.head hc.head
    | call callee arguments chained =>
      exact (fills_expression callee b hp.head hc.head).trans (fills_expressions arguments _ hp.tail hc.tail)
    | new callee arguments =>
      exact (fills_expression callee b hp.head hc.head).trans (fills_expressions arguments _ hp.tail hc.tail)
    | binary operator left right =>
      exact (fills_expression left b hp.head hc.head).trans (fills_expression right _ hp.tail.head hc.tail.head)
    | logical operator left right =>
      exact (fills_expression left b hp.head hc.head).trans (fills_expression right _ hp.tail.head hc.tail.head)
    | assignment operator left right =>
      exact (fills_expression left b hp.head hc.head).trans (fills_expression right _ hp.tail.head hc.tail.head)
    | unary operator argument => exact fills_expression argument b hp.head hc.head
    | update operator isPrefix argument => exact fills_expression argument b hp.head hc.head
    | spread argument => exact fills_expression argument b hp.head hc.head
    | parenthesized inner => exact fills_expression inner b hp.head hc.head
    | conditional test consequent alternate =>
      exact (fills_expression test b hp.head hc.head).trans
        ((fills_expression consequent _ hp.tail.head hc.tail.head).trans
          (fills_expression alternate _ hp.tail.tail.head hc.tail.tail.head))
    | sequence items => exact fills_expressions items b hp hc
    | arrayLiteral items => exact fills_expressions items b hp hc
    | objectLiteral items => exact fills_properties items b hp hc
    | _ => exact .rfl b

theorem fills_optional : ∀ {most lo hi : Nat} (o : Option Node) (b : Binder), AllRoom offset lo hi o.toList →
    AllScopesWithin most o.toList → b.Fills offset lo hi most (Binder.optional o b)
  | _, _, _, none, b, _, _ => .rfl b
  | _, _, _, some n, b, h, hs => fills_expression n b h.head hs.head

theorem fills_expressions : ∀ {most lo hi : Nat} (l : List Node) (b : Binder), AllRoom offset lo hi l →
    AllScopesWithin most l → b.Fills offset lo hi most (expressions l b)
  | _, _, _, [], b, _, _ => .rfl b
  | _, _, _, n :: rest, b, h, hs =>
    (fills_expression n b h.head hs.head).trans (fills_expressions rest _ h.tail hs.tail)

theorem fills_properties : ∀ {most lo hi : Nat} (l : List Node) (b : Binder), AllRoom offset lo hi l →
    AllScopesWithin most l → b.Fills offset lo hi most (properties l b)
  | _, _, _, [], b, _, _ => .rfl b
  | _, _, _, ⟨_, item⟩ :: rest, b, h, hs => by
    have hrest := fun b => fills_properties rest b h.tail hs.tail
    have hitem := hs.head
    cases item with
    | property key value computed shorthand method =>
      obtain ⟨hvalue, hkey⟩ := h.head.property
      have hc := hitem.counted
      cases computed with
      | false => exact (fills_expression value b hvalue hc.tail.head).trans (hrest _)
      | true =>
        exact (fills_expression key b (hkey rfl) hc.head).trans ((fills_expression value _ hvalue hc.tail.head).trans
          (hrest _))
    | _ => exact (fills_expression _ b h.head hitem).trans (hrest _)
end

end Typeahead
