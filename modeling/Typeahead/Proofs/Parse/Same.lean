/-
# Trees that are the same

Two trees are compared node by node. What the parser makes of a text can be computed, and compared
with a tree that is written out.

Key definitions: `Node.same`.
Key theorems: `Node.eq_of_same`, `eq_ok_of_same`, `parseProgram_of_same`.
-/
import Typeahead.Grammar.Script
import Typeahead.Proofs.Scope.Spread

namespace Typeahead

mutual
/-- Two trees are the same. -/
def Node.same : Node → Node → Bool
  | ⟨range, kind⟩, ⟨range', kind'⟩ => range = range' && kind.same kind'
  termination_by structural n => n

/-- Two nodes are the same but for the ranges that they cover. -/
def NodeKind.same : NodeKind → NodeKind → Bool
  | .program body, other => match other with | .program body' => sameAll body body' | _ => false
  | .block body, other => match other with | .block body' => sameAll body body' | _ => false
  | .identifier name, other => match other with | .identifier name' => name = name' | _ => false
  | .stringLiteral name, other => match other with | .stringLiteral name' => name = name' | _ => false
  | .bigIntLiteral name, other => match other with | .bigIntLiteral name' => name = name' | _ => false
  | .templateLiteral name, other => match other with | .templateLiteral name' => name = name' | _ => false
  | .numericLiteral value raw, other => match other with
    | .numericLiteral value' raw' => value = value' && raw = raw'
    | _ => false
  | .booleanLiteral value, other => match other with | .booleanLiteral value' => value = value' | _ => false
  | .nullLiteral, other => match other with | .nullLiteral => true | _ => false
  | .this, other => match other with | .this => true | _ => false
  | .super, other => match other with | .super => true | _ => false
  | .break, other => match other with | .break => true | _ => false
  | .continue, other => match other with | .continue => true | _ => false
  | .empty, other => match other with | .empty => true | _ => false
  | .arrayLiteral items, other => match other with | .arrayLiteral items' => sameAll items items' | _ => false
  | .objectLiteral items, other => match other with | .objectLiteral items' => sameAll items items' | _ => false
  | .sequence items, other => match other with | .sequence items' => sameAll items items' | _ => false
  | .property key value computed shorthand method, other => match other with
    | .property key' value' computed' shorthand' method' =>
      key.same key' && value.same value' && computed = computed' && shorthand = shorthand' && method = method'
    | _ => false
  | .spread inner, other => match other with | .spread inner' => inner.same inner' | _ => false
  | .parenthesized inner, other => match other with | .parenthesized inner' => inner.same inner' | _ => false
  | .throw inner, other => match other with | .throw inner' => inner.same inner' | _ => false
  | .expressionStatement inner, other => match other with
    | .expressionStatement inner' => inner.same inner'
    | _ => false
  | .member object property computed chained, other => match other with
    | .member object' property' computed' chained' =>
      object.same object' && property.same property' && computed = computed' && chained = chained'
    | _ => false
  | .call callee arguments chained, other => match other with
    | .call callee' arguments' chained' =>
      callee.same callee' && sameAll arguments arguments' && chained = chained'
    | _ => false
  | .new callee arguments, other => match other with
    | .new callee' arguments' => callee.same callee' && sameAll arguments arguments'
    | _ => false
  | .binary operator left right, other => match other with
    | .binary operator' left' right' => operator = operator' && left.same left' && right.same right'
    | _ => false
  | .logical operator left right, other => match other with
    | .logical operator' left' right' => operator = operator' && left.same left' && right.same right'
    | _ => false
  | .assignment operator left right, other => match other with
    | .assignment operator' left' right' => operator = operator' && left.same left' && right.same right'
    | _ => false
  | .unary operator argument, other => match other with
    | .unary operator' argument' => operator = operator' && argument.same argument'
    | _ => false
  | .update operator first argument, other => match other with
    | .update operator' first' argument' => operator = operator' && first = first' && argument.same argument'
    | _ => false
  | .conditional test consequent alternate, other => match other with
    | .conditional test' consequent' alternate' =>
      test.same test' && consequent.same consequent' && alternate.same alternate'
    | _ => false
  | .arrowFunction params body isAsync, other => match other with
    | .arrowFunction params' body' isAsync' => sameAll params params' && body.same body' && isAsync = isAsync'
    | _ => false
  | .parameter name target fallback isRest, other => match other with
    | .parameter name' target' fallback' isRest' =>
      name = name' && sameSome target target' && sameSome fallback fallback' && isRest = isRest'
    | _ => false
  | .functionExpression parts, other => match other with
    | .functionExpression parts' => parts.same parts'
    | _ => false
  | .functionDeclaration parts, other => match other with
    | .functionDeclaration parts' => parts.same parts'
    | _ => false
  | .classExpression parts, other => match other with | .classExpression parts' => parts.same parts' | _ => false
  | .classDeclaration parts, other => match other with | .classDeclaration parts' => parts.same parts' | _ => false
  | .methodMember key kind isStatic value, other => match other with
    | .methodMember key' kind' isStatic' value' =>
      key = key' && kind = kind' && isStatic = isStatic' && value.same value'
    | _ => false
  | .fieldMember key value isStatic, other => match other with
    | .fieldMember key' value' isStatic' => key = key' && sameSome value value' && isStatic = isStatic'
    | _ => false
  | .variableDeclaration kind declarations, other => match other with
    | .variableDeclaration kind' declarations' => kind = kind' && sameAll declarations declarations'
    | _ => false
  | .variableDeclarator target init, other => match other with
    | .variableDeclarator target' init' => target.same target' && sameSome init init'
    | _ => false
  | .return argument, other => match other with | .return argument' => sameSome argument argument' | _ => false
  | .if test consequent alternate, other => match other with
    | .if test' consequent' alternate' =>
      test.same test' && consequent.same consequent' && sameSome alternate alternate'
    | _ => false
  | .while test body, other => match other with
    | .while test' body' => test.same test' && body.same body'
    | _ => false
  | .doWhile test body, other => match other with
    | .doWhile test' body' => test.same test' && body.same body'
    | _ => false
  | .for init test step body, other => match other with
    | .for init' test' step' body' =>
      sameSome init init' && sameSome test test' && sameSome step step' && body.same body'
    | _ => false
  | .forInOf left right body isOf, other => match other with
    | .forInOf left' right' body' isOf' =>
      left.same left' && right.same right' && body.same body' && isOf = isOf'
    | _ => false
  | .switch discriminant cases, other => match other with
    | .switch discriminant' cases' => discriminant.same discriminant' && sameAll cases cases'
    | _ => false
  | .switchCase test consequent, other => match other with
    | .switchCase test' consequent' => sameSome test test' && sameAll consequent consequent'
    | _ => false
  | .try tried handler finalizer, other => match other with
    | .try tried' handler' finalizer' =>
      tried.same tried' && sameSome handler handler' && sameSome finalizer finalizer'
    | _ => false
  | .catchClause param body, other => match other with
    | .catchClause param' body' => param = param' && body.same body'
    | _ => false
  termination_by structural k => k

/-- Two functions have the same parts. -/
def FunctionParts.same : FunctionParts Node → FunctionParts Node → Bool
  | ⟨name, params, body, isAsync⟩, ⟨name', params', body', isAsync'⟩ =>
    name = name' && sameAll params params' && body.same body' && isAsync = isAsync'
  termination_by structural p => p

/-- Two classes have the same parts. -/
def ClassParts.same : ClassParts Node → ClassParts Node → Bool
  | ⟨name, superclass, members, range⟩, ⟨name', superclass', members', range'⟩ =>
    name = name' && sameSome superclass superclass' && sameAll members members' && range = range'
  termination_by structural p => p

/-- Two lists hold the same trees. -/
def sameAll : List Node → List Node → Bool
  | [], [] => true
  | n :: rest, n' :: rest' => n.same n' && sameAll rest rest'
  | _, _ => false
  termination_by structural l => l

/-- Two trees that may be absent are the same. -/
def sameSome : Option Node → Option Node → Bool
  | none, none => true
  | some n, some n' => n.same n'
  | _, _ => false
  termination_by structural o => o
end

/-! ### What is the same is equal -/

theorem eq_of_sameAll :
    ∀ {l l' : List Node}, (∀ n ∈ l, ∀ n', n.same n' = true → n = n') → sameAll l l' = true → l = l'
  | [], [], _, _ => rfl
  | [], _ :: _, _, h => by cases h
  | _ :: _, [], _, h => by cases h
  | n :: rest, n' :: rest', ih, h => by
    rw [sameAll, Bool.and_eq_true] at h
    rw [ih n List.mem_cons_self n' h.1, eq_of_sameAll (fun m hm => ih m (List.mem_cons_of_mem _ hm)) h.2]

theorem eq_of_sameSome :
    ∀ {o o' : Option Node}, (∀ n ∈ o.toList, ∀ n', n.same n' = true → n = n') → sameSome o o' = true → o = o'
  | none, none, _, _ => rfl
  | none, some _, _, h => by cases h
  | some _, none, _, h => by cases h
  | some n, some n', ih, h => congrArg some (ih n List.mem_cons_self n' h)

theorem FunctionParts.eq_of_same {parts parts' : FunctionParts Node}
    (ih : ∀ n ∈ parts.params ++ [parts.body], ∀ n', n.same n' = true → n = n') (h : parts.same parts' = true) :
    parts = parts' := by
  obtain ⟨name, params, body, isAsync⟩ := parts
  obtain ⟨name', params', body', isAsync'⟩ := parts'
  simp only [same, Bool.and_eq_true, decide_eq_true_eq] at h
  obtain ⟨⟨⟨rfl, hparams⟩, hbody⟩, rfl⟩ := h
  obtain rfl := eq_of_sameAll (fun n hn => ih n (List.mem_append_left _ hn)) hparams
  obtain rfl := ih body (by simp) body' hbody
  rfl

theorem ClassParts.eq_of_same {parts parts' : ClassParts Node}
    (ih : ∀ n ∈ parts.superclass.toList ++ parts.members, ∀ n', n.same n' = true → n = n')
    (h : parts.same parts' = true) :
    parts = parts' := by
  obtain ⟨name, superclass, members, range⟩ := parts
  obtain ⟨name', superclass', members', range'⟩ := parts'
  simp only [same, Bool.and_eq_true, decide_eq_true_eq] at h
  obtain ⟨⟨⟨rfl, hsuperclass⟩, hmembers⟩, rfl⟩ := h
  obtain rfl := eq_of_sameAll (fun n hn => ih n (List.mem_append_right _ hn)) hmembers
  obtain rfl := eq_of_sameSome (fun n hn => ih n (List.mem_append_left _ hn)) hsuperclass
  rfl

/-- Nodes that are the same are equal, if that is so for the nodes in them. -/
theorem NodeKind.eq_of_same {kind kind' : NodeKind} (ih : ∀ n ∈ kind.children, ∀ n', n.same n' = true → n = n')
    (h : kind.same kind' = true) : kind = kind' := by
  cases kind with
  | program items | block items | arrayLiteral items | objectLiteral items | sequence items =>
    unfold NodeKind.same at h
    split at h
    · rw [eq_of_sameAll (l := items) ih h]
    · cases h
  | identifier _ | stringLiteral _ | bigIntLiteral _ | templateLiteral _ | booleanLiteral _ =>
    unfold NodeKind.same at h
    split at h
    · rw [of_decide_eq_true h]
    · cases h
  | numericLiteral value raw =>
    unfold NodeKind.same at h
    split at h
    · simp only [Bool.and_eq_true, decide_eq_true_eq] at h
      obtain ⟨rfl, rfl⟩ := h
      rfl
    · cases h
  | nullLiteral | this | super | «break» | «continue» | empty =>
    unfold NodeKind.same at h
    split at h
    · rfl
    · cases h
  | property key value computed shorthand method =>
    unfold NodeKind.same at h
    split at h
    · simp only [Bool.and_eq_true, decide_eq_true_eq] at h
      obtain ⟨⟨⟨⟨hkey, hvalue⟩, rfl⟩, rfl⟩, rfl⟩ := h
      rw [ih key (by simp [children]) _ hkey, ih value (by simp [children]) _ hvalue]
    · cases h
  | spread inner | parenthesized inner | throw inner | expressionStatement inner =>
    unfold NodeKind.same at h
    split at h
    · rw [ih inner List.mem_cons_self _ h]
    · cases h
  | member object property computed chained =>
    unfold NodeKind.same at h
    split at h
    · simp only [Bool.and_eq_true, decide_eq_true_eq] at h
      obtain ⟨⟨⟨hobject, hproperty⟩, rfl⟩, rfl⟩ := h
      rw [ih object (by simp [children]) _ hobject, ih property (by simp [children]) _ hproperty]
    · cases h
  | call callee arguments chained =>
    unfold NodeKind.same at h
    split at h
    · simp only [Bool.and_eq_true, decide_eq_true_eq] at h
      obtain ⟨⟨hcallee, harguments⟩, rfl⟩ := h
      rw [ih callee (by simp [children]) _ hcallee,
        eq_of_sameAll (fun n hn => ih n (by simp [children, hn])) harguments]
    · cases h
  | new callee arguments =>
    unfold NodeKind.same at h
    split at h
    · simp only [Bool.and_eq_true] at h
      obtain ⟨hcallee, harguments⟩ := h
      rw [ih callee (by simp [children]) _ hcallee,
        eq_of_sameAll (fun n hn => ih n (by simp [children, hn])) harguments]
    · cases h
  | binary operator left right | logical operator left right | assignment operator left right =>
    unfold NodeKind.same at h
    split at h
    · simp only [Bool.and_eq_true, decide_eq_true_eq] at h
      obtain ⟨⟨rfl, hleft⟩, hright⟩ := h
      rw [ih left (by simp [children]) _ hleft, ih right (by simp [children]) _ hright]
    · cases h
  | unary operator argument =>
    unfold NodeKind.same at h
    split at h
    · simp only [Bool.and_eq_true, decide_eq_true_eq] at h
      obtain ⟨rfl, hargument⟩ := h
      rw [ih argument List.mem_cons_self _ hargument]
    · cases h
  | update operator first argument =>
    unfold NodeKind.same at h
    split at h
    · simp only [Bool.and_eq_true, decide_eq_true_eq] at h
      obtain ⟨⟨rfl, rfl⟩, hargument⟩ := h
      rw [ih argument List.mem_cons_self _ hargument]
    · cases h
  | conditional test consequent alternate =>
    unfold NodeKind.same at h
    split at h
    · simp only [Bool.and_eq_true] at h
      obtain ⟨⟨htest, hconsequent⟩, halternate⟩ := h
      rw [ih test (by simp [children]) _ htest, ih consequent (by simp [children]) _ hconsequent,
        ih alternate (by simp [children]) _ halternate]
    · cases h
  | arrowFunction params body isAsync =>
    unfold NodeKind.same at h
    split at h
    · simp only [Bool.and_eq_true, decide_eq_true_eq] at h
      obtain ⟨⟨hparams, hbody⟩, rfl⟩ := h
      rw [eq_of_sameAll (fun n hn => ih n (by simp [children, hn])) hparams, ih body (by simp [children]) _ hbody]
    · cases h
  | parameter name target fallback isRest =>
    unfold NodeKind.same at h
    split at h
    · simp only [Bool.and_eq_true, decide_eq_true_eq] at h
      obtain ⟨⟨⟨rfl, htarget⟩, hfallback⟩, rfl⟩ := h
      rw [eq_of_sameSome (fun n hn => ih n (List.mem_append_left _ hn)) htarget,
        eq_of_sameSome (fun n hn => ih n (List.mem_append_right _ hn)) hfallback]
    · cases h
  | functionExpression parts | functionDeclaration parts =>
    unfold NodeKind.same at h
    split at h
    · rw [FunctionParts.eq_of_same ih h]
    · cases h
  | classExpression parts | classDeclaration parts =>
    unfold NodeKind.same at h
    split at h
    · rw [ClassParts.eq_of_same ih h]
    · cases h
  | methodMember key kind isStatic value =>
    unfold NodeKind.same at h
    split at h
    · simp only [Bool.and_eq_true, decide_eq_true_eq] at h
      obtain ⟨⟨⟨rfl, rfl⟩, rfl⟩, hvalue⟩ := h
      rw [ih value List.mem_cons_self _ hvalue]
    · cases h
  | fieldMember key value isStatic =>
    unfold NodeKind.same at h
    split at h
    · simp only [Bool.and_eq_true, decide_eq_true_eq] at h
      obtain ⟨⟨rfl, hvalue⟩, rfl⟩ := h
      rw [eq_of_sameSome ih hvalue]
    · cases h
  | variableDeclaration kind declarations =>
    unfold NodeKind.same at h
    split at h
    · simp only [Bool.and_eq_true, decide_eq_true_eq] at h
      obtain ⟨rfl, hdeclarations⟩ := h
      rw [eq_of_sameAll (l := declarations) ih hdeclarations]
    · cases h
  | variableDeclarator target init =>
    unfold NodeKind.same at h
    split at h
    · simp only [Bool.and_eq_true] at h
      obtain ⟨htarget, hinit⟩ := h
      rw [ih target (by simp [children]) _ htarget,
        eq_of_sameSome (fun n hn => ih n (List.mem_cons_of_mem _ hn)) hinit]
    · cases h
  | «return» argument =>
    unfold NodeKind.same at h
    split at h
    · rw [eq_of_sameSome ih h]
    · cases h
  | «if» test consequent alternate =>
    unfold NodeKind.same at h
    split at h
    · simp only [Bool.and_eq_true] at h
      obtain ⟨⟨htest, hconsequent⟩, halternate⟩ := h
      rw [ih test (by simp [children]) _ htest, ih consequent (by simp [children]) _ hconsequent,
        eq_of_sameSome (fun n hn => ih n (List.mem_cons_of_mem _ (List.mem_cons_of_mem _ hn))) halternate]
    · cases h
  | «while» test body =>
    unfold NodeKind.same at h
    split at h
    · simp only [Bool.and_eq_true] at h
      obtain ⟨htest, hbody⟩ := h
      rw [ih test (by simp [children]) _ htest, ih body (by simp [children]) _ hbody]
    · cases h
  | doWhile test body =>
    unfold NodeKind.same at h
    split at h
    · simp only [Bool.and_eq_true] at h
      obtain ⟨htest, hbody⟩ := h
      rw [ih test (by simp [children]) _ htest, ih body (by simp [children]) _ hbody]
    · cases h
  | «for» init test step body =>
    unfold NodeKind.same at h
    split at h
    · simp only [Bool.and_eq_true] at h
      obtain ⟨⟨⟨hinit, htest⟩, hstep⟩, hbody⟩ := h
      rw [eq_of_sameSome (fun n hn => ih n (by simp [children, Option.mem_toList.1 hn])) hinit,
        eq_of_sameSome (fun n hn => ih n (by simp [children, Option.mem_toList.1 hn])) htest,
        eq_of_sameSome (fun n hn => ih n (by simp [children, Option.mem_toList.1 hn])) hstep,
          ih body (by simp [children]) _ hbody]
    · cases h
  | forInOf left right body isOf =>
    unfold NodeKind.same at h
    split at h
    · simp only [Bool.and_eq_true, decide_eq_true_eq] at h
      obtain ⟨⟨⟨hleft, hright⟩, hbody⟩, rfl⟩ := h
      rw [ih left (by simp [children]) _ hleft, ih right (by simp [children]) _ hright,
        ih body (by simp [children]) _ hbody]
    · cases h
  | switch discriminant branches =>
    unfold NodeKind.same at h
    split at h
    · simp only [Bool.and_eq_true] at h
      obtain ⟨hdiscriminant, hbranches⟩ := h
      rw [ih discriminant (by simp [children]) _ hdiscriminant,
        eq_of_sameAll (fun n hn => ih n (by simp [children, hn])) hbranches]
    · cases h
  | switchCase test consequent =>
    unfold NodeKind.same at h
    split at h
    · simp only [Bool.and_eq_true] at h
      obtain ⟨htest, hconsequent⟩ := h
      rw [eq_of_sameSome (fun n hn => ih n (List.mem_append_left _ hn)) htest,
        eq_of_sameAll (fun n hn => ih n (List.mem_append_right _ hn)) hconsequent]
    · cases h
  | «try» tried handler finalizer =>
    unfold NodeKind.same at h
    split at h
    · simp only [Bool.and_eq_true] at h
      obtain ⟨⟨htried, hhandler⟩, hfinalizer⟩ := h
      rw [ih tried (by simp [children]) _ htried,
        eq_of_sameSome (fun n hn => ih n (List.mem_cons_of_mem _ (List.mem_append_left _ hn))) hhandler,
        eq_of_sameSome (fun n hn => ih n (List.mem_cons_of_mem _ (List.mem_append_right _ hn))) hfinalizer]
    · cases h
  | catchClause param body =>
    unfold NodeKind.same at h
    split at h
    · simp only [Bool.and_eq_true, decide_eq_true_eq] at h
      obtain ⟨rfl, hbody⟩ := h
      rw [ih body List.mem_cons_self _ hbody]
    · cases h

/-- **Trees that are the same are equal.** -/
theorem Node.eq_of_same (n n' : Node) (h : n.same n' = true) : n = n' := by
  induction hsize : sizeOf n using Nat.strongRecOn generalizing n n' with
  | _ size ih =>
    obtain ⟨range, kind⟩ := n
    obtain ⟨range', kind'⟩ := n'
    rw [same, Bool.and_eq_true, decide_eq_true_eq] at h
    have hkind := NodeKind.eq_of_same
      (fun c hc c' hsame => ih _ (hsize ▸ sizeOf_lt_of_mem_children range hc) c c' hsame rfl) h.2
    rw [h.1, hkind]

/-- The result of a parse that is the same as a tree is that tree. -/
theorem eq_ok_of_same {r : Except ParseError Node} {n : Node} (h : r.toOption.any n.same = true) : r = .ok n := by
  cases r with
  | error fault => simp [Except.toOption] at h
  | ok parsed =>
    simp only [Except.toOption, Option.any_some] at h
    rw [Node.eq_of_same _ _ h]

/-- A text whose program is the same as a tree has that program. -/
theorem parseProgram_of_same {text : List Char} {program : Node}
    (h : (parseProgram text).toOption.any program.same = true) :
    parseProgram text = .ok program := eq_ok_of_same h

end Typeahead
