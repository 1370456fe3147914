/-
# The names that a scope is given

A pattern binds the names in it, and so do parameters and the declarations of `let` and `const`.
The binder gives each of these names to the scope that is open, whatever stands beside it: default
values, values and computed keys may open scopes of their own, but leave what is bound in place.

Key definitions: `Node.boundNames`, `Node.lexicalNames`, `parameterBoundNames`, `Binder.Declares`.
Key theorems: `declares_pattern`, `declares_parameters`, `declares_statement`.
-/
import Typeahead.Proofs.Scope.Keep

namespace Typeahead

/-! ### The names -/

/-- A name, unless it is empty. -/
def nameOf (name : String) : List String := if name.isEmpty then [] else [name]

mutual
/-- The names in a pattern. -/
def Node.boundNames : Node → List String
  | ⟨_, .identifier name⟩ => nameOf name
  | ⟨_, .objectLiteral items⟩ => propertyBoundNames items
  | ⟨_, .arrayLiteral items⟩ => elementBoundNames items
  | ⟨_, .assignment _ target _⟩ => target.boundNames
  | _ => []

/-- The names in the properties of a pattern. -/
def propertyBoundNames : List Node → List String
  | [] => []
  | ⟨_, .property _ value _ _ _⟩ :: rest => value.boundNames ++ propertyBoundNames rest
  | ⟨_, .spread argument⟩ :: rest => argument.boundNames ++ propertyBoundNames rest
  | _ :: rest => propertyBoundNames rest

/-- The names in the elements of a pattern. -/
def elementBoundNames : List Node → List String
  | [] => []
  | ⟨_, .spread argument⟩ :: rest => argument.boundNames ++ elementBoundNames rest
  | n :: rest => n.boundNames ++ elementBoundNames rest
end

/-- The names that parameters bind. -/
def parameterBoundNames : List Node → List String
  | [] => []
  | ⟨_, .parameter _ (some target) _ _⟩ :: rest => target.boundNames ++ parameterBoundNames rest
  | ⟨_, .parameter name none _ _⟩ :: rest => nameOf name ++ parameterBoundNames rest
  | _ :: rest => parameterBoundNames rest

/-- The names of variables. -/
def declaratorNames : List Node → List String
  | [] => []
  | ⟨_, .variableDeclarator target _⟩ :: rest => target.boundNames ++ declaratorNames rest
  | _ :: rest => declaratorNames rest

/-- The names that a statement declares with `let` or `const`. -/
def Node.lexicalNames : Node → List String
  | ⟨_, .variableDeclaration .letKind declarations⟩ => declaratorNames declarations
  | ⟨_, .variableDeclaration .constKind declarations⟩ => declaratorNames declarations
  | _ => []

namespace Binder

variable {b b' c : Binder} {scope : ScopeId} {names names' : List String}

/-- A walk of the binder gives a scope some names. -/
def Declares (scope : ScopeId) (names : List String) (b b' : Binder) : Prop :=
  b.current < b.tree.size → scope < b.tree.size → ∀ name ∈ names, b'.tree.Binds scope name

namespace Declares

theorem none (b b' : Binder) : Declares scope [] b b' := fun _ _ _ h => by cases h

/-- What comes before a declaration changes nothing. -/
theorem after (hb : b.Keeps b') (h : Declares scope names b' c) : Declares scope names b c := by
  intro hcurrent hscope
  have hretains := hb hcurrent
  exact h (hretains.valid hcurrent) (Nat.lt_of_lt_of_le hscope hretains.size)

/-- What was declared stays so. -/
theorem before (hb : b.Keeps b') (h : Declares scope names b b') (hc : b'.Keeps c) : Declares scope names b c :=
  fun hcurrent hscope name hname =>
    (hc ((hb hcurrent).valid hcurrent)).binds (h hcurrent hscope name hname)

theorem append (hb : b.Keeps b') (hc : b'.Keeps c) (h : Declares scope names b b') (h' : Declares scope names' b' c) :
    Declares scope (names ++ names') b c := by
  intro hcurrent hscope name hname
  rcases List.mem_append.1 hname with hname | hname
  · exact before hb h hc hcurrent hscope name hname
  · exact after hb h' hcurrent hscope name hname

theorem declare (b : Binder) (scope : ScopeId) (name : String) {kind : SymbolKind} (hk : kind.isMember = false)
    (type : Option Ty) : Declares scope (nameOf name) b (b.declare scope name kind type) := by
  intro _ hscope other hother
  rw [nameOf] at hother
  split at hother
  · cases hother
  · rename_i hname
    obtain rfl := List.mem_singleton.1 hother
    obtain ⟨s, hs⟩ : ∃ s, b.tree.get? scope = some s := ⟨_, Array.getElem?_eq_getElem hscope⟩
    have hbinds : Scope.Binds { s with symbols := s.symbols.insert other ⟨other, kind, type⟩ } other :=
      @Scope.binds_insert s other ⟨other, kind, type⟩ hk (.inr rfl)
    rw [Binder.declare, if_neg hname]
    exact ⟨_, by rw [ScopeTree.define, ScopeTree.get?_modify, if_pos rfl, hs, Option.map_some], hbinds⟩

end Declares

end Binder

/-! ### Declaring them -/

open Binder

mutual
/-- **The binder gives a scope every name of a pattern.** -/
theorem declares_pattern (scope : ScopeId) (source : Option Ty) {kind : SymbolKind} (hk : kind.isMember = false) :
    ∀ (n : Node) (b : Binder), Declares scope n.boundNames b (pattern scope source kind n b)
  | ⟨_, nodeKind⟩, b => by
    cases nodeKind with
    | identifier name => exact .declare b scope name hk source
    | objectLiteral items => exact declares_propertyPatterns scope source hk items b
    | arrayLiteral items => exact declares_elementPatterns scope _ hk items b
    | assignment operator target value =>
      exact .after (keeps_expression value b) (declares_pattern scope _ hk target _)
    | _ => exact .none _ _

theorem declares_propertyPatterns (scope : ScopeId) (source : Option Ty) {kind : SymbolKind}
    (hk : kind.isMember = false) : ∀ (l : List Node) (b : Binder),
    Declares scope (propertyBoundNames l) b (propertyPatterns scope source kind l b)
  | [], b => .none b b
  | ⟨_, item⟩ :: rest, b => by
    cases item with
    | property key value computed shorthand method =>
      exact .append (keeps_pattern scope _ hk value b) (keeps_propertyPatterns scope source hk rest _)
        (declares_pattern scope _ hk value b) (declares_propertyPatterns scope source hk rest _)
    | spread argument =>
      exact .append (keeps_pattern scope _ hk argument b) (keeps_propertyPatterns scope source hk rest _)
        (declares_pattern scope _ hk argument b) (declares_propertyPatterns scope source hk rest _)
    | _ => exact declares_propertyPatterns scope source hk rest b

theorem declares_elementPatterns (scope : ScopeId) (element : Option Ty) {kind : SymbolKind}
    (hk : kind.isMember = false) : ∀ (l : List Node) (b : Binder),
    Declares scope (elementBoundNames l) b (elementPatterns scope element kind l b)
  | [], b => .none b b
  | ⟨_, item⟩ :: rest, b => by
    cases item with
    | spread argument =>
      exact .append (keeps_pattern scope _ hk argument b) (keeps_elementPatterns scope element hk rest _)
        (declares_pattern scope _ hk argument b) (declares_elementPatterns scope element hk rest _)
    | _ =>
      exact .append (keeps_pattern scope _ hk _ b) (keeps_elementPatterns scope element hk rest _)
        (declares_pattern scope _ hk _ b) (declares_elementPatterns scope element hk rest _)
end

/-- The names that belong to the open scope are declared there, one after the other. -/
theorem Binder.Declares.append_current {names names' : List String} {b b' c : Binder} (hb : b.Keeps b')
    (hc : b'.Keeps c) (h : Declares b.current names b b') (h' : Declares b'.current names' b' c) :
    Declares b.current (names ++ names') b c := by
  intro hcurrent
  rw [(hb hcurrent).current] at h'
  exact h.append hb hc h' hcurrent

theorem declares_parameters : ∀ (l : List Node) (b : Binder),
    Declares b.current (parameterBoundNames l) b (parameters l b)
  | [], b => .none b b
  | ⟨_, parameter⟩ :: rest, b => by
    cases parameter with
    | parameter name target fallback isRest =>
      have hfallback := keeps_optional fallback b
      cases target with
      | some target =>
        exact .append_current (hfallback.trans (keeps_pattern _ _ rfl target _)) (keeps_parameters rest _)
          (.after hfallback (declares_pattern _ _ rfl target _)) (declares_parameters rest _)
      | none =>
        exact .append_current (hfallback.trans (.declare _ _ name rfl _)) (keeps_parameters rest _)
          (.after hfallback (.declare _ _ name rfl _)) (declares_parameters rest _)
    | _ => exact declares_parameters rest b

theorem declares_declarators {kind : VariableKind} (hkind : kind ≠ .varKind) : ∀ (l : List Node) (b : Binder),
    Declares b.current (declaratorNames l) b (declarators kind l b)
  | [], b => .none b b
  | ⟨_, declaration⟩ :: rest, b => by
    cases declaration with
    | variableDeclarator target init =>
      have hk : kind.symbolKind.isMember = false := by cases kind <;> rfl
      have hscope : b.declarationScope kind = b.current := by
        cases kind with
        | varKind => exact absurd rfl hkind
        | letKind | constKind => rfl
      rw [declarators, hscope]
      split
      · rename_i name parts hname _
        obtain ⟨range, targetKind⟩ := target
        cases targetKind with
        | identifier name' =>
          cases hname
          exact .append_current (.trans (.declare b _ name hk _) (keeps_classValue _ init _)) (keeps_declarators kind rest _)
            (.before (.declare b _ name hk _) (.declare b _ name hk _) (keeps_classValue _ init _))
            (declares_declarators hkind rest _)
        | _ => cases hname
      · exact .append_current ((keeps_pattern _ _ hk target b).trans (keeps_optional init _)) (keeps_declarators kind rest _)
          (.before (keeps_pattern _ _ hk target b) (declares_pattern _ _ hk target b) (keeps_optional init _))
          (declares_declarators hkind rest _)
    | _ => exact declares_declarators hkind rest b

/-- **A statement declares the names of its `let` or `const`** in the scope it stands in. -/
theorem declares_statement (n : Node) (b : Binder) : Declares b.current n.lexicalNames b (statement n b) := by
  obtain ⟨range, kind⟩ := n
  cases kind with
  | variableDeclaration kind declarations =>
    cases kind with
    | varKind => exact .none _ _
    | letKind | constKind => exact declares_declarators (by simp) declarations b
  | _ => exact .none _ _

end Typeahead
