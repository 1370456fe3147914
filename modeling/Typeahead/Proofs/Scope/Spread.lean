/-
# Space for a walk

The nodes that a walk of the binder passes are spread over a space: they follow one another in
it. The pieces of a node are spread over the space from where the node starts.

Key definitions: `NodeKind.discriminant?`, `Node.SwitchesPlainly`, `Spread`.
Key theorems: `Spread.append`, `Spread.pieces`.
-/
import Typeahead.Proofs.Layout.Tree

namespace Typeahead

/-- What a switch is on. -/
def NodeKind.discriminant? : NodeKind → Option Node
  | .switch discriminant _ => some discriminant
  | _ => none

namespace Node

/-- Some node of the tree opens a scope. -/
def OpensScope (n : Node) : Prop := ∃ m, n.Contains m ∧ m.kind.opensScope = true

/-- Nothing that is switched on opens a scope. -/
def SwitchesPlainly (n : Node) : Prop := ∀ m, n.Contains m → ∀ d ∈ m.kind.discriminant?, ¬ d.OpensScope

end Node

/-- Nodes smaller than a size that follow one another between two offsets, and in which switches
are plain. -/
structure Spread (size lo hi : Nat) (nodes : List Node) : Prop where
  small : ∀ n ∈ nodes, sizeOf n < size
  le : lo ≤ hi
  inOrder : InOrder lo nodes
  placed : ∀ n ∈ nodes, n.Placed
  within : ∀ n ∈ nodes, n.EndsWithin hi
  plain : ∀ n ∈ nodes, n.SwitchesPlainly

theorem mem_children_of_mem_counted {kind : NodeKind} {n : Node} (hk : kind.opensScope = false) (h : n ∈ kind.counted) :
    ∃ m ∈ kind.children, m.Contains n := by
  have hunpacked : ∀ m : Node, n ∈ m.unpacked → m.Contains n := by
    rintro ⟨range, kind⟩ hm
    cases kind with
    | objectLiteral items =>
      obtain ⟨⟨itemRange, itemKind⟩, hitem, hm⟩ := List.mem_flatMap.1 hm
      refine .inside hitem ?_
      cases itemKind with
      | property key value computed shorthand method =>
        obtain ⟨valueRange, valueKind⟩ := value
        refine .inside (List.mem_cons_of_mem _ List.mem_cons_self) ?_
        cases valueKind with
        | functionExpression => cases hm
        | _ =>
          rw [List.mem_singleton.1 hm]
          exact .self _
      | spread argument =>
        rw [List.mem_singleton.1 hm]
        exact .inside List.mem_cons_self (.self _)
      | _ => cases hm
    | _ =>
      rw [List.mem_singleton.1 hm]
      exact .self _
  cases kind with
  | parameter name pattern fallback isRest =>
    rcases List.mem_append.1 h with h | h
    · obtain ⟨p, hp, h⟩ := List.mem_flatMap.1 h
      exact ⟨p, List.mem_append_left _ hp, hunpacked p h⟩
    · exact ⟨n, List.mem_append_right _ h, .self n⟩
  | variableDeclarator target init =>
    rcases List.mem_append.1 h with h | h
    · exact ⟨target, List.mem_cons_self, hunpacked target h⟩
    · exact ⟨n, List.mem_cons_of_mem _ h, .self n⟩
  | _ => exact ⟨n, h, .self n⟩

/-- Where no node opens a scope none lies in another. -/
theorem Node.ScopesWithin.zero {most : Nat} {n : Node} (h : n.ScopesWithin most) (hn : ¬ n.OpensScope) :
    n.ScopesWithin 0 := by
  have hinside : ∀ {range : TextRange} {kind : NodeKind}, ¬ Node.OpensScope ⟨range, kind⟩ →
      kind.opensScope = false ∧ ∀ n ∈ kind.counted, ¬ n.OpensScope := by
    intro range kind hn
    have hk : kind.opensScope = false := Bool.eq_false_iff.2 fun hk => hn ⟨_, .self _, hk⟩
    refine ⟨hk, fun m hm ⟨k, hmk, hk'⟩ => ?_⟩
    obtain ⟨c, hc, hcm⟩ := mem_children_of_mem_counted hk hm
    exact hn ⟨k, .inside hc (hcm.trans hmk), hk'⟩
  induction h with
  | plain hk _ ih => exact .plain hk fun m hm => ih m hm ((hinside hn).2 m hm)
  | @scope most range kind _ _ ihs ihc =>
    refine .plain (hinside hn).1 fun m hm => ?_
    rcases superclass_or_scoped hm with h | h
    · exact ihs m h ((hinside hn).2 m hm)
    · exact ihc m h ((hinside hn).2 m hm)

/-- The pieces of a node are smaller than the node. -/
theorem sizeOf_lt_of_mem_children (range : TextRange) {kind : NodeKind} {n : Node} (h : n ∈ kind.children) :
    sizeOf n < sizeOf (⟨range, kind⟩ : Node) := by
  have hlist : ∀ {l : List Node}, n ∈ l → sizeOf n < sizeOf l := List.sizeOf_lt_of_mem
  have hoption : ∀ {o : Option Node}, n ∈ o.toList → sizeOf n < sizeOf o := fun {o} h => by
    obtain rfl := Option.mem_toList.1 h
    simp
  cases kind with
  | functionExpression parts | functionDeclaration parts | classExpression parts | classDeclaration parts =>
    cases parts
    simp [NodeKind.children, -Option.mem_toList] at h ⊢
    grind
  | _ =>
    first
    | cases h; done
    | simp [NodeKind.children, -Option.mem_toList] at h ⊢
      grind

namespace Spread

variable {size lo hi : Nat} {l l' : List Node} {n : Node}

theorem mono {lo' hi' : Nat} (h : Spread size lo' hi' l) (hlo : lo ≤ lo') (hhi : hi' ≤ hi) : Spread size lo hi l :=
  ⟨h.small, Nat.le_trans hlo (Nat.le_trans h.le hhi), h.inOrder.mono hlo, h.placed,
    fun n hn => (h.within n hn).mono hhi, h.plain⟩

/-- Nodes that follow others do so behind some offset. -/
theorem append (h : Spread size lo hi (l ++ l')) : ∃ middle, Spread size lo middle l ∧ Spread size middle hi l' := by
  obtain ⟨hapart, hapart', hcross⟩ := List.pairwise_append.1 h.inOrder.apart
  have hleft : ∀ {middle}, lo ≤ middle → (∀ n ∈ l, n.EndsWithin middle) → Spread size lo middle l :=
    fun hle hl => ⟨fun n hn => h.small n (List.mem_append_left _ hn), hle,
      ⟨fun n hn => h.inOrder.starts n (List.mem_append_left _ hn), hapart⟩,
      fun n hn => h.placed n (List.mem_append_left _ hn), hl, fun n hn => h.plain n (List.mem_append_left _ hn)⟩
  have hright : ∀ {middle}, middle ≤ hi → (∀ n ∈ l', middle ≤ n.start) → Spread size middle hi l' :=
    fun hle hl => ⟨fun n hn => h.small n (List.mem_append_right _ hn), hle, ⟨hl, hapart'⟩,
      fun n hn => h.placed n (List.mem_append_right _ hn), fun n hn => h.within n (List.mem_append_right _ hn),
      fun n hn => h.plain n (List.mem_append_right _ hn)⟩
  cases l' with
  | nil => exact ⟨hi, hleft h.le fun n hn => h.within n (by simpa using hn), hright (Nat.le_refl _) (by simp)⟩
  | cons first rest =>
    have hmem : first ∈ l ++ first :: rest := by simp
    have hlt := (h.placed first hmem).start_lt_stop
    have hstop := (h.within first hmem).stop_le
    refine ⟨first.start, hleft (h.inOrder.starts first hmem) fun n hn => hcross n hn first (by simp),
      hright (by omega) fun n hn => ?_⟩
    rcases List.mem_cons.1 hn with rfl | hn
    · exact Nat.le_refl _
    · have := ((List.pairwise_cons.1 hapart').1 n hn).stop_le
      omega

theorem cons (h : Spread size lo hi (n :: l)) : ∃ middle, Spread size lo middle [n] ∧ Spread size middle hi l :=
  append (l := [n]) h

theorem of_mem (h : Spread size lo hi l) (hn : n ∈ l) : Spread size lo hi [n] :=
  ⟨by simpa using h.small n hn, h.le, ⟨by simpa using h.inOrder.starts n hn, List.pairwise_singleton ..⟩,
    by simpa using h.placed n hn, by simpa using h.within n hn, by simpa using h.plain n hn⟩

section

variable {range : TextRange} {kind : NodeKind} (h : Spread size lo hi [⟨range, kind⟩])
include h

theorem lo_le : lo ≤ range.start := h.inOrder.starts _ List.mem_cons_self

theorem stop_le : range.stop ≤ hi := (h.within _ List.mem_cons_self).stop_le

theorem start_le : range.start ≤ hi :=
  Nat.le_trans (Nat.le_of_lt (h.placed _ List.mem_cons_self).start_lt_stop) h.stop_le

theorem braced : kind.Braced range := (h.placed _ List.mem_cons_self).braced

/-- The pieces of a node are spread over the space from where the node starts, and are smaller. -/
theorem pieces {size' : Nat} (hsize : size ≤ size' + 1) : Spread size' range.start hi kind.pieces where
  small n hn := by
    have := h.small _ List.mem_cons_self
    have := sizeOf_lt_of_mem_children range (mem_children_of_mem_pieces hn)
    omega
  le := h.start_le
  inOrder := (h.placed _ List.mem_cons_self).inOrder
  placed _ hn := (h.placed _ List.mem_cons_self).of_mem hn
  within _ hn := (h.within _ List.mem_cons_self).of_mem (mem_children_of_mem_pieces hn)
  plain _ hn m hm := h.plain _ List.mem_cons_self m (.inside (mem_children_of_mem_pieces hn) hm)

/-- The pieces of a node are spread over the space that the node is spread over. -/
theorem inner : Spread size lo hi kind.pieces := (h.pieces (Nat.le_succ _)).mono h.lo_le (Nat.le_refl _)

end

end Spread

/-- What a pattern takes apart into holds no more scopes than the pattern does. -/
theorem Node.ScopesWithin.patternWithin {most : Nat} {n : Node} (h : n.ScopesWithin most) : n.PatternWithin most := by
  obtain ⟨range, kind⟩ := n
  intro m hm
  cases kind with
  | objectLiteral items =>
    obtain ⟨item, hitem, hm⟩ := List.mem_flatMap.1 hm
    have hscopes : item.ScopesWithin most := h.of_mem hitem
    obtain ⟨itemRange, itemKind⟩ := item
    cases itemKind with
    | property key value computed shorthand method =>
      obtain ⟨valueRange, valueKind⟩ := value
      cases valueKind with
      | functionExpression => cases hm
      | _ =>
        rw [List.mem_singleton.1 hm]
        exact hscopes.of_mem (by simp [NodeKind.counted, NodeKind.children])
    | spread argument =>
      rw [List.mem_singleton.1 hm]
      exact hscopes.of_mem (by simp [NodeKind.counted, NodeKind.children])
    | _ => cases hm
  | _ =>
    rw [List.mem_singleton.1 hm]
    exact h

end Typeahead
