/-
# The steps of the binder

Whatever the binder does it does in steps of a few kinds: it opens a scope, leaves the one that is
open, or changes what a scope holds. A walk over a tree that ends within an offset is a run of such
steps in which no scope is left at a later one. So what each step keeps every walk keeps.

Key definitions: `Binder.Step`, `Binder.Runs`.
Key theorems: `Binder.Runs.invariant`, `runs_statement`, `runs_script`.
-/
import Mathlib.Logic.Relation
import Typeahead.Proofs.Layout.Script
import Typeahead.Scope.Binding

namespace Typeahead

namespace Binder

/-- One step of the binder. No scope is opened or left later than at an offset. -/
inductive Step (last : Nat) (b : Binder) : Binder → Prop
  | enter (kind : ScopeKind) {start : Nat} (h : start ≤ last) : Step last b (b.enter kind start)
  | leave {stop : Nat} (h : stop ≤ last) : Step last b (b.leave stop)
  | define (id : ScopeId) (symbol : Symbol) : Step last b { b with tree := b.tree.define id symbol }
  | retype (id : ScopeId) (name : String) (type : Option Ty) :
      Step last b { b with tree := b.tree.retype id name type }
  | setClass (symbol : Symbol) : Step last b (b.setClass symbol)
  | setFunction (symbol : Option Symbol) (isStatic : Bool) : Step last b (b.setFunction symbol isStatic)

/-- Steps of the binder in a row. -/
def Runs (last : Nat) : Binder → Binder → Prop := Relation.ReflTransGen (Step last)

variable {last : Nat} {b b' c : Binder}

namespace Runs

theorem refl : Runs last b b := Relation.ReflTransGen.refl

theorem single (h : Step last b b') : Runs last b b' := Relation.ReflTransGen.single h

theorem trans (h : Runs last b b') (h' : Runs last b' c) : Runs last b c := Relation.ReflTransGen.trans h h'

theorem head (h : Step last b b') (h' : Runs last b' c) : Runs last b c := Relation.ReflTransGen.head h h'

theorem tail (h : Runs last b b') (h' : Step last b' c) : Runs last b c := Relation.ReflTransGen.tail h h'

/-- **What every step keeps a run keeps.** -/
theorem invariant {P : Binder → Prop} (hstep : ∀ {b b'}, Step last b b' → P b → P b') (h : Runs last b b')
    (hb : P b) : P b' := by
  unfold Runs at h
  induction h with
  | refl => exact hb
  | tail _ hs ih => exact hstep hs ih

theorem declare (b : Binder) (scope : ScopeId) (name : String) (kind : SymbolKind) (type : Option Ty) :
    Runs last b (b.declare scope name kind type) := by
  rw [Binder.declare]
  split
  · exact .refl
  · exact .single (.define scope _)

theorem foldl {α : Type} {f : Binder → α → Binder} (hf : ∀ b a, Runs last b (f b a)) :
    ∀ (l : List α) (b : Binder), Runs last b (l.foldl f b)
  | [], _ => .refl
  | a :: l, b => (hf b a).trans (foldl hf l (f b a))

theorem hoist (b : Binder) (statements : List Node) : Runs last b (b.hoist statements) := by
  refine foldl (fun b n => ?_) statements b
  split
  · split
    · exact declare ..
    · exact .refl
  · exact .refl

theorem declareMembers (b : Binder) (symbol : Symbol) : Runs last b (b.declareMembers symbol) := by
  rw [Binder.declareMembers]
  split
  · exact foldl (fun b _ => declare b ..) _ b
  · exact .refl

theorem refineResult (b : Binder) (declaredIn : ScopeId) (name : String) (scope : ScopeId)
    (parts : FunctionParts Node) : Runs last b (b.refineResult declaredIn name scope parts) := by
  rw [Binder.refineResult]
  split
  · exact .refl
  · split
    · exact .single (.retype ..)
    · exact .refl

theorem trackAssignment (b : Binder) (expression : Node) : Runs last b (b.trackAssignment expression) := by
  rw [Binder.trackAssignment]
  split
  · split
    · split
      · dsimp only
        split
        · exact .refl
        · exact .single (.retype ..)
      · exact .refl
    · exact .refl
  · exact .refl

/-- A run in a scope of its own. -/
theorem scope {kind : ScopeKind} {start stop : Nat} (hstart : start ≤ last) (h : Runs last (b.enter kind start) b')
    (hstop : stop ≤ last) : Runs last b (b'.leave stop) :=
  (head (.enter kind hstart) h).tail (.leave hstop)

end Runs

end Binder

/-! ### Walks are runs -/

open Binder

variable {last : Nat}

/-- A tree is in order and ends within an offset. -/
structure Node.Fits (last : Nat) (n : Node) : Prop where
  placed : n.Placed
  ends : n.EndsWithin last

/-- Some trees are in order and end within an offset. -/
def AllFit (last : Nat) (nodes : List Node) : Prop := ∀ n ∈ nodes, n.Fits last

section

variable {n : Node} {l l' : List Node} {range : TextRange} {kind : NodeKind}

theorem AllFit.head (h : AllFit last (n :: l)) : n.Fits last := h n List.mem_cons_self

theorem AllFit.tail (h : AllFit last (n :: l)) : AllFit last l := fun m hm => h m (List.mem_cons_of_mem _ hm)

theorem AllFit.left (h : AllFit last (l ++ l')) : AllFit last l := fun n hn => h n (List.mem_append_left _ hn)

theorem AllFit.right (h : AllFit last (l ++ l')) : AllFit last l' := fun n hn => h n (List.mem_append_right _ hn)

theorem Node.Fits.stop_le (h : n.Fits last) : n.stop ≤ last := h.ends.stop_le

theorem Node.Fits.start_le (h : n.Fits last) : n.start ≤ last :=
  Nat.le_trans (Nat.le_of_lt h.placed.start_lt_stop) h.stop_le

theorem Node.Fits.pieces (h : Node.Fits last ⟨range, kind⟩) : AllFit last kind.pieces :=
  fun _ hn => ⟨h.placed.of_mem hn, h.ends.of_mem (mem_children_of_mem_pieces hn)⟩

/-- The value of a property, and its key where that is an expression. -/
theorem Node.Fits.property {key value : Node} {computed shorthand method : Bool}
    (h : Node.Fits last ⟨range, .property key value computed shorthand method⟩) :
    value.Fits last ∧ (computed = true → key.Fits last) := by
  have hp := h.pieces
  rw [NodeKind.pieces] at hp
  split at hp
  · rename_i hshort
    exact ⟨hp.head, fun hc => by simp [hc] at hshort⟩
  · exact ⟨hp.tail.head, fun _ => hp.head⟩

theorem Node.Fits.body_le {r : TextRange} (h : Node.Fits last ⟨range, kind⟩) (hr : r ∈ kind.classBody?) :
    r.start ≤ last ∧ r.stop ≤ last := by
  have hstop := h.ends.body_le hr
  have hbraced := h.placed.braced
  cases kind with
  | classExpression parts | classDeclaration parts =>
    cases hr
    exact ⟨Nat.le_trans (Nat.le_of_lt hbraced.2.1) hstop, hstop⟩
  | _ => cases hr

end

mutual
/-- **The walk over a statement is a run.** -/
theorem runs_statement : ∀ (n : Node) (b : Binder), n.Fits last → Runs last b (statement n b)
  | ⟨range, kind⟩, b, h => by
    have hc := h.pieces
    cases kind with
    | variableDeclaration kind declarations => exact runs_declarators kind declarations b hc
    | functionDeclaration parts =>
      rw [statement]
      split
      · exact (runs_function parts _ _ _ b h.start_le hc).trans (.refineResult _ _ _ _ _)
      · exact runs_function parts _ _ _ b h.start_le hc
    | classDeclaration parts => exact .trans (.declare b _ _ _ _) (runs_classBody parts _ _ hc (h.body_le rfl))
    | expressionStatement n =>
      rw [statement]
      split
      · exact (runs_expression n b hc.head).trans (.trackAssignment _ _)
      · exact runs_expression n b hc.head
    | «return» argument => exact runs_optional argument b hc
    | throw argument => exact runs_expression argument b hc.head
    | block body => exact .scope h.start_le (.trans (.hoist _ body) (runs_statements body _ hc)) h.stop_le
    | «if» test consequent alternate =>
      exact (runs_expression test b hc.head).trans ((runs_statement consequent _ hc.tail.head).trans
        (runs_optionalStatement alternate _ hc.tail.tail))
    | «while» test body => exact (runs_expression test b hc.head).trans (runs_statement body _ hc.tail.head)
    | doWhile body test => exact (runs_expression test b hc.tail.head).trans (runs_statement body _ hc.head)
    | «for» init test update body =>
      have hinit := runs_loopStart init (b.enter .block range.start) hc.left.left.left
      exact .scope h.start_le (hinit.trans ((runs_optional test _ hc.left.left.right).trans
        ((runs_optional update _ hc.left.right).trans (runs_statement body _ hc.right.head)))) h.stop_le
    | forInOf left right body isOf =>
      have hright := runs_expression right (b.enter .block range.start) hc.tail.head
      have hleft := hc.head
      obtain ⟨leftRange, leftKind⟩ := left
      cases leftKind with
      | variableDeclaration kind declarations =>
        exact .scope h.start_le (hright.trans ((runs_loopTargets _ _ kind declarations _ hleft.pieces).trans
          (runs_statement body _ hc.tail.tail.head))) h.stop_le
      | _ =>
        exact .scope h.start_le
          (hright.trans ((runs_expression _ _ hleft).trans (runs_statement body _ hc.tail.tail.head))) h.stop_le
    | switch discriminant branches =>
      exact (runs_expression discriminant b hc.head).trans (.scope h.start_le (runs_cases branches _ hc.tail) h.stop_le)
    | «try» block handler finalizer =>
      exact (runs_statement block b hc.head).trans ((runs_catchClause handler _ hc.tail.left).trans
        (runs_optionalStatement finalizer _ hc.tail.right))
    | _ => exact .refl

theorem runs_statements : ∀ (l : List Node) (b : Binder), AllFit last l → Runs last b (statements l b)
  | [], _, _ => .refl
  | n :: rest, b, h => (runs_statement n b h.head).trans (runs_statements rest _ h.tail)

theorem runs_optionalStatement : ∀ (o : Option Node) (b : Binder), AllFit last o.toList →
    Runs last b (optionalStatement o b)
  | none, _, _ => .refl
  | some n, b, h => runs_statement n b h.head

theorem runs_loopStart : ∀ (o : Option Node) (b : Binder), AllFit last o.toList → Runs last b (loopStart o b)
  | none, _, _ => .refl
  | some ⟨_, kind⟩, b, h => by
    cases kind with
    | variableDeclaration kind declarations => exact runs_declarators kind declarations b h.head.pieces
    | _ => exact runs_expression _ b h.head

theorem runs_loopTargets (scope : ScopeId) (iterated : Ty) (kind : VariableKind) : ∀ (l : List Node) (b : Binder),
    AllFit last l → Runs last b (loopTargets scope iterated kind l b)
  | [], _, _ => .refl
  | ⟨_, declaration⟩ :: rest, b, h => by
    cases declaration with
    | variableDeclarator target init =>
      exact (runs_pattern scope _ _ target b h.head.pieces.head).trans
        (runs_loopTargets scope iterated kind rest _ h.tail)
    | _ => exact runs_loopTargets scope iterated kind rest b h.tail

theorem runs_cases : ∀ (l : List Node) (b : Binder), AllFit last l → Runs last b (Binder.cases l b)
  | [], _, _ => .refl
  | ⟨_, branch⟩ :: rest, b, h => by
    have hc := h.head.pieces
    cases branch with
    | switchCase test consequent =>
      exact (runs_optional test b hc.left).trans (.trans (.hoist _ consequent)
        ((runs_statements consequent _ hc.right).trans (runs_cases rest _ h.tail)))
    | _ => exact runs_cases rest b h.tail

theorem runs_catchClause : ∀ (o : Option Node) (b : Binder), AllFit last o.toList →
    Runs last b (catchClause o b)
  | none, _, _ => .refl
  | some ⟨_, kind⟩, b, h => by
    have hc := h.head.pieces
    cases kind with
    | catchClause param body =>
      obtain ⟨bodyRange, bodyKind⟩ := body
      cases bodyKind with
      | block body =>
        exact .scope h.head.start_le
          (.trans (.declare _ _ _ _ _) (.trans (.hoist _ body) (runs_statements body _ hc.head.pieces))) h.head.stop_le
      | _ => exact .refl
    | _ => exact .refl

theorem runs_declarators (kind : VariableKind) : ∀ (l : List Node) (b : Binder), AllFit last l →
    Runs last b (declarators kind l b)
  | [], _, _ => .refl
  | ⟨_, declaration⟩ :: rest, b, h => by
    have hc := h.head.pieces
    cases declaration with
    | variableDeclarator target init =>
      rw [declarators]
      split
      · exact .trans (.declare b _ _ _ _) ((runs_classValue _ init _ hc.tail).trans (runs_declarators kind rest _ h.tail))
      · exact (runs_pattern _ _ _ target b hc.head).trans ((runs_optional init _ hc.tail).trans
          (runs_declarators kind rest _ h.tail))
    | _ => exact runs_declarators kind rest b h.tail

theorem runs_classValue (symbol : Symbol) : ∀ (o : Option Node) (b : Binder), AllFit last o.toList →
    Runs last b (classValue symbol o b)
  | none, _, _ => .refl
  | some n, b, h => runs_parenthesizedClass symbol n b h.head

theorem runs_parenthesizedClass (symbol : Symbol) : ∀ (n : Node) (b : Binder), n.Fits last →
    Runs last b (parenthesizedClass symbol n b)
  | ⟨_, kind⟩, b, h => by
    cases kind with
    | parenthesized inner => exact runs_parenthesizedClass symbol inner b h.pieces.head
    | classExpression parts => exact runs_classBody parts symbol b h.pieces (h.body_le rfl)
    | _ => exact .refl

theorem runs_pattern (scope : ScopeId) (source : Option Ty) (kind : SymbolKind) : ∀ (n : Node) (b : Binder),
    n.Fits last → Runs last b (pattern scope source kind n b)
  | ⟨_, nodeKind⟩, b, h => by
    have hc := h.pieces
    cases nodeKind with
    | identifier name => exact .declare b scope name kind source
    | objectLiteral items => exact runs_propertyPatterns scope source kind items b hc
    | arrayLiteral items => exact runs_elementPatterns scope _ kind items b hc
    | assignment operator target value =>
      exact (runs_expression value b hc.tail.head).trans (runs_pattern scope _ kind target _ hc.head)
    | _ => exact .refl

theorem runs_propertyPatterns (scope : ScopeId) (source : Option Ty) (kind : SymbolKind) : ∀ (l : List Node) (b : Binder),
    AllFit last l → Runs last b (propertyPatterns scope source kind l b)
  | [], _, _ => .refl
  | ⟨_, item⟩ :: rest, b, h => by
    have hc := h.head.pieces
    cases item with
    | property key value computed shorthand method =>
      exact (runs_pattern scope _ kind value b h.head.property.1).trans (runs_propertyPatterns scope source kind rest _ h.tail)
    | spread argument =>
      exact (runs_pattern scope _ kind argument b hc.head).trans (runs_propertyPatterns scope source kind rest _ h.tail)
    | _ => exact runs_propertyPatterns scope source kind rest b h.tail

theorem runs_elementPatterns (scope : ScopeId) (element : Option Ty) (kind : SymbolKind) : ∀ (l : List Node) (b : Binder),
    AllFit last l → Runs last b (elementPatterns scope element kind l b)
  | [], _, _ => .refl
  | ⟨_, item⟩ :: rest, b, h => by
    have hc := h.head.pieces
    cases item with
    | spread argument =>
      exact (runs_pattern scope _ kind argument b hc.head).trans (runs_elementPatterns scope element kind rest _ h.tail)
    | _ => exact (runs_pattern scope _ kind _ b h.head).trans (runs_elementPatterns scope element kind rest _ h.tail)

theorem runs_parameters : ∀ (l : List Node) (b : Binder), AllFit last l → Runs last b (parameters l b)
  | [], _, _ => .refl
  | ⟨_, parameter⟩ :: rest, b, h => by
    have hc := h.head.pieces
    cases parameter with
    | parameter name target fallback isRest =>
      have hfallback := runs_optional fallback b hc.right
      cases target with
      | some target =>
        exact hfallback.trans ((runs_pattern _ _ _ target _ hc.left.head).trans (runs_parameters rest _ h.tail))
      | none => exact hfallback.trans (.trans (.declare _ _ _ _ _) (runs_parameters rest _ h.tail))
    | _ => exact runs_parameters rest b h.tail

theorem runs_function : ∀ (parts : FunctionParts Node) (start : Nat) (symbol : Option Symbol) (isStatic : Bool)
    (b : Binder), start ≤ last → AllFit last (parts.params ++ [parts.body]) →
      Runs last b (function parts start symbol isStatic b)
  | ⟨_, params, ⟨_, kind⟩, _⟩, start, symbol, isStatic, b, hstart, h => by
    have hparams := Runs.head (.setFunction symbol isStatic)
      (runs_parameters params ((b.enter .function start).setFunction symbol isStatic) h.left)
    have hbody := h.right.head
    cases kind with
    | block body =>
      exact .scope hstart (hparams.trans (.trans (.hoist _ body) (runs_statements body _ hbody.pieces))) hbody.stop_le
    | _ => exact .scope hstart (hparams.trans (runs_statement _ _ hbody)) hbody.stop_le

theorem runs_classBody : ∀ (parts : ClassParts Node) (symbol : Symbol) (b : Binder),
    AllFit last (parts.superclass.toList ++ parts.members) → parts.bodyRange.start ≤ last ∧ parts.bodyRange.stop ≤ last →
    Runs last b (classBody parts symbol b)
  | ⟨_, superclass, members, _⟩, symbol, b, h, ⟨hstart, hstop⟩ =>
    (runs_optional superclass b h.left).trans (.scope hstart (.trans (.declareMembers _ symbol)
      (.head (.setClass symbol) (runs_classElements members _ h.right))) hstop)

theorem runs_classElements : ∀ (l : List Node) (b : Binder), AllFit last l → Runs last b (classElements l b)
  | [], _, _ => .refl
  | ⟨_, element⟩ :: rest, b, h => by
    have hc := h.head.pieces
    cases element with
    | methodMember key kind isStatic value =>
      have hvalue := hc.head
      obtain ⟨range, kind⟩ := value
      cases kind with
      | functionExpression parts =>
        exact (runs_function parts _ _ isStatic b hvalue.start_le hvalue.pieces).trans (runs_classElements rest _ h.tail)
      | _ => exact runs_classElements rest b h.tail
    | fieldMember key value isStatic => exact (runs_optional value b hc).trans (runs_classElements rest _ h.tail)
    | _ => exact runs_classElements rest b h.tail

theorem runs_expression : ∀ (n : Node) (b : Binder), n.Fits last → Runs last b (expression n b)
  | ⟨range, kind⟩, b, h => by
    have hc := h.pieces
    cases kind with
    | arrowFunction params body isAsync =>
      have hparams := runs_parameters params (b.enter .arrow range.start) hc.left
      have hbody := hc.right.head
      obtain ⟨bodyRange, bodyKind⟩ := body
      cases bodyKind with
      | block body =>
        exact .scope h.start_le (hparams.trans (.trans (.hoist _ body) (runs_statements body _ hbody.pieces))) h.stop_le
      | _ => exact .scope h.start_le (hparams.trans (runs_expression _ _ hbody)) h.stop_le
    | functionExpression parts =>
      rw [expression]
      split
      · exact (runs_function parts _ _ _ b h.start_le hc).tail (.define _ _)
      · exact runs_function parts _ _ _ b h.start_le hc
    | classExpression parts => exact runs_classBody parts _ b hc (h.body_le rfl)
    | member object property computed chained =>
      rw [expression]
      split
      · exact (runs_expression object b hc.head).trans (runs_expression property _ hc.tail.head)
      · exact runs_expression object b hc.head
    | call callee arguments chained => exact (runs_expression callee b hc.head).trans (runs_expressions arguments _ hc.tail)
    | new callee arguments => exact (runs_expression callee b hc.head).trans (runs_expressions arguments _ hc.tail)
    | binary operator left right => exact (runs_expression left b hc.head).trans (runs_expression right _ hc.tail.head)
    | logical operator left right => exact (runs_expression left b hc.head).trans (runs_expression right _ hc.tail.head)
    | assignment operator left right => exact (runs_expression left b hc.head).trans (runs_expression right _ hc.tail.head)
    | unary operator argument => exact runs_expression argument b hc.head
    | update operator isPrefix argument => exact runs_expression argument b hc.head
    | spread argument => exact runs_expression argument b hc.head
    | parenthesized inner => exact runs_expression inner b hc.head
    | conditional test consequent alternate =>
      exact (runs_expression test b hc.head).trans ((runs_expression consequent _ hc.tail.head).trans
        (runs_expression alternate _ hc.tail.tail.head))
    | sequence items => exact runs_expressions items b hc
    | arrayLiteral items => exact runs_expressions items b hc
    | objectLiteral items => exact runs_properties items b hc
    | _ => exact .refl

theorem runs_optional : ∀ (o : Option Node) (b : Binder), AllFit last o.toList → Runs last b (Binder.optional o b)
  | none, _, _ => .refl
  | some n, b, h => runs_expression n b h.head

theorem runs_expressions : ∀ (l : List Node) (b : Binder), AllFit last l → Runs last b (expressions l b)
  | [], _, _ => .refl
  | n :: rest, b, h => (runs_expression n b h.head).trans (runs_expressions rest _ h.tail)

theorem runs_properties : ∀ (l : List Node) (b : Binder), AllFit last l → Runs last b (properties l b)
  | [], _, _ => .refl
  | ⟨_, item⟩ :: rest, b, h => by
    have hc := h.head.pieces
    cases item with
    | property key value computed shorthand method =>
      obtain ⟨hvalue, hkey⟩ := h.head.property
      cases computed with
      | false => exact (runs_expression value b hvalue).trans (runs_properties rest _ h.tail)
      | true => exact (runs_expression key b (hkey rfl)).trans ((runs_expression value _ hvalue).trans
          (runs_properties rest _ h.tail))
    | _ => exact (runs_expression _ b h.head).trans (runs_properties rest _ h.tail)
end

/-- **Binding a script that was laid out is a run.** -/
theorem runs_script {body : List Node} {most : Nat} (tracksAssignments : Bool) (h : LaidOut 0 last most body) :
    Runs last (.start tracksAssignments) (statements body ((Binder.start tracksAssignments).hoist body)) :=
  .trans (.hoist _ body) (runs_statements body _ fun n hn => ⟨h.placed n hn, h.within n hn⟩)

/-- A text that is a program is bound as that program, with either parser. -/
theorem tree_bindText (options : BindOptions) {text : List Char} {program : Node} (h : parseProgram text = .ok program) :
    (bindText options text).tree =
      (program.bind options.tracksAssignments).close ScopeTree.root (Text.unitLength text + 1) := by
  rw [bindText]
  split
  · rw [parseDocument_of_program h]
  · rw [h]

end Typeahead
