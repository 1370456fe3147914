/-
# No label is offered twice

What is offered comes from several places, each of which sees to it in its own way that no label
comes twice: a scope has one symbol of a name, an inner name hides the outer ones, members are made
distinct, the words of a language are listed once, and a list that is added to another leaves out
what that one has.

Key definitions: `Scope.Keyed`, `Completion.DistinctLabels`.
Key theorems: `keyed_bindText`, `Completion.distinctLabels_namesAt`, `Completion.distinctLabels_inScript`,
`Completion.distinctLabels_inHtml`, `Completion.distinctLabels_inCss`.
-/
import Typeahead.Completion.Complete
import Typeahead.Proofs.Members
import Typeahead.Proofs.Scope.Outline
import Typeahead.Proofs.Scope.Steps

namespace Typeahead

/-! ### A scope has one symbol of a name -/

namespace Entries

variable {α : Type} {entries : Entries α} {key : String} {value : α}

theorem mem_of_get? : ∀ {entries : Entries α}, entries.get? key = some value → (key, value) ∈ entries
  | (k, v) :: rest, h => by
    rw [get?] at h
    split at h
    · rename_i heq
      cases h
      subst heq
      exact List.mem_cons_self
    · exact List.mem_cons_of_mem _ (mem_of_get? h)

theorem mem_insert : ∀ {entries : Entries α} {entry : String × α}, entry ∈ entries.insert key value →
    entry = (key, value) ∨ entry ∈ entries
  | [], _, h => .inl (List.mem_singleton.1 h)
  | (k, v) :: rest, entry, h => by
    rw [insert] at h
    split at h
    · rename_i heq
      subst heq
      rcases List.mem_cons.1 h with h | h
      · exact .inl h
      · exact .inr (List.mem_cons_of_mem _ h)
    · rcases List.mem_cons.1 h with rfl | h
      · exact .inr List.mem_cons_self
      · exact (mem_insert h).imp id (List.mem_cons_of_mem _)

theorem nodup_keys_insert (h : entries.keys.Nodup) : (entries.insert key value).keys.Nodup := by
  rw [keys_insert]
  split
  · exact h
  · rename_i hkey
    exact List.nodup_append.2 ⟨h, List.pairwise_singleton _ key, by grind⟩

end Entries

/-- The symbols of a scope have their names for keys, each of them once. -/
structure Scope.Keyed (scope : Scope) : Prop where
  nodup : scope.symbols.keys.Nodup
  named : ∀ entry ∈ scope.symbols, entry.2.name = entry.1

/-- The symbols of every scope have their names for keys. -/
def ScopeTree.Keyed (tree : ScopeTree) : Prop := ∀ id s, tree.get? id = some s → s.Keyed

namespace Scope.Keyed

variable {s : Scope}

theorem insert (h : s.Keyed) (symbol : Symbol) :
    Scope.Keyed { s with symbols := s.symbols.insert symbol.name symbol } where
  nodup := Entries.nodup_keys_insert h.nodup
  named entry he := by
    rcases Entries.mem_insert he with rfl | he
    · rfl
    · exact h.named entry he

theorem names (h : s.Keyed) : s.symbols.values.map (·.name) = s.symbols.keys := by
  rw [Entries.values, Entries.keys, List.map_map]
  exact List.map_congr_left h.named

end Scope.Keyed

namespace ScopeTree

variable {tree : ScopeTree} {id : ScopeId}

theorem Keyed.modify (h : tree.Keyed) {change : Scope → Scope}
    (hchange : ∀ s, tree.get? id = some s → s.Keyed → (change s).Keyed) : (tree.modify id change).Keyed := by
  intro other s hs
  rw [get?_modify] at hs
  split at hs
  · rename_i heq
    subst heq
    obtain ⟨old, hold, rfl⟩ := Option.map_eq_some_iff.1 hs
    exact hchange old hold (h id old hold)
  · exact h other s hs

/-- A change that leaves the symbols as they are. -/
theorem Keyed.modify_same (h : tree.Keyed) {change : Scope → Scope} (hchange : ∀ s, (change s).symbols = s.symbols) :
    (tree.modify id change).Keyed :=
  h.modify fun s _ hs => ⟨hchange s ▸ hs.nodup, hchange s ▸ hs.named⟩

theorem Keyed.retype (h : tree.Keyed) (name : String) (type : Option Ty) : (tree.retype id name type).Keyed := by
  rw [ScopeTree.retype]
  split
  · rename_i symbol hsymbol
    refine h.modify fun s hs hkeyed => ?_
    rw [symbol?, hs, Option.bind_some] at hsymbol
    obtain rfl : symbol.name = name := hkeyed.named _ (Entries.mem_of_get? hsymbol)
    exact hkeyed.insert { symbol with type }
  · exact h

end ScopeTree

namespace Binder

open ScopeTree

variable {last : Nat} {b b' : Binder}

theorem keyed_start (tracksAssignments : Bool) : (Binder.start tracksAssignments).tree.Keyed := by
  intro id s hs
  have hid : id < 1 := (Array.getElem?_eq_some_iff.1 hs).1
  obtain rfl : id = 0 := Nat.lt_one_iff.1 hid
  cases hs
  exact ⟨.nil, fun _ he => by cases he⟩

/-- **Every step of the binder keeps symbols under their names.** -/
theorem Step.keyed (hs : Step last b b') (h : b.tree.Keyed) : b'.tree.Keyed := by
  cases hs with
  | @enter kind start =>
    intro id s hs
    cases habove : b.tree.get? b.current with
    | none =>
      rw [Binder.enter, openScope?, habove, Option.map_none] at hs
      exact h id s hs
    | some above =>
      obtain ⟨-, -, hget⟩ := get?_enter kind start habove
      rw [hget] at hs
      split at hs
      · cases hs
        exact ⟨.nil, fun _ he => by cases he⟩
      · split at hs
        · cases hs
          have hkeyed := h _ _ habove
          exact ⟨hkeyed.nodup, hkeyed.named⟩
        · exact h id s hs
  | leave => exact h.modify_same fun _ => rfl
  | define id symbol => exact h.modify fun s _ hs => hs.insert symbol
  | retype id name type => exact h.retype name type
  | setClass symbol => exact h.modify_same fun _ => rfl
  | setFunction symbol isStatic =>
    cases symbol with
    | none => exact h
    | some symbol => exact h.modify_same fun _ => rfl

theorem keyed_bind {range : TextRange} {body : List Node} {most : Nat} (tracksAssignments : Bool)
    (h : LaidOut 0 last most body) : (Node.bind ⟨range, .program body⟩ tracksAssignments).Keyed :=
  (runs_script tracksAssignments h).invariant (fun hs hb => hs.keyed hb) (keyed_start tracksAssignments)

end Binder

/-- **In the scopes of every text symbols have their names for keys.** -/
theorem keyed_bindText (options : BindOptions) (text : List Char) : (bindText options text).tree.Keyed := by
  rw [bindText]
  split
  · obtain ⟨range, body, hparse, hlaid⟩ := laidOut_parseDocument text
    dsimp only
    rw [hparse]
    exact (Binder.keyed_bind options.tracksAssignments hlaid).modify_same fun _ => rfl
  · split
    · rename_i program hparse
      obtain ⟨range, body, rfl, hlaid⟩ := laidOut_parseProgram hparse
      exact (Binder.keyed_bind options.tracksAssignments hlaid).modify_same fun _ => rfl
    · exact (Binder.keyed_start true).modify_same fun _ => rfl

theorem Document.keyed_tree (text : List Char) (language : Language) : (Document.ofText text language).tree.Keyed := by
  rw [Document.ofText]
  dsimp only
  split
  · exact keyed_bindText {} text
  · exact Binder.keyed_start true

namespace ScopeTree

variable {tree : ScopeTree}

theorem nodup_bindings (h : tree.Keyed) (id : ScopeId) : ((tree.bindings id).map (·.name)).Nodup := by
  rw [bindings]
  split
  · exact .nil
  · rename_i s hs
    have hkeyed := h id s hs
    exact (hkeyed.names ▸ hkeyed.nodup : (s.symbols.values.map (·.name)).Nodup).sublist (List.filter_sublist.map _)

/-- An inner name hides the outer ones, so no name is visible twice. -/
theorem nodup_visible (h : tree.Keyed) (id : ScopeId) : ((tree.visible id).map (·.name)).Nodup := by
  have hfold : ∀ (scopes : List ScopeId) (seen : List Symbol), (seen.map (·.name)).Nodup →
      ((scopes.foldl (fun seen scope => seen ++ (tree.bindings scope).filter
        fun symbol => !seen.any (·.name == symbol.name)) seen).map (·.name)).Nodup := by
    intro scopes
    induction scopes with
    | nil => exact fun seen hseen => hseen
    | cons scope scopes ih =>
      intro seen hseen
      refine ih _ ?_
      rw [List.map_append]
      refine List.nodup_append.2 ⟨hseen, (nodup_bindings h scope).sublist (List.filter_sublist.map _), ?_⟩
      rintro name hname _ hother rfl
      obtain ⟨symbol, hsymbol, rfl⟩ := List.mem_map.1 hother
      obtain ⟨other, hother, heq⟩ := List.mem_map.1 hname
      have hnot := (List.mem_filter.1 hsymbol).2
      simp only [Bool.not_eq_true', List.any_eq_false, beq_iff_eq] at hnot
      exact hnot other hother heq
  exact hfold _ [] .nil

end ScopeTree

/-! ### Lists of items -/

namespace Completion

/-- No two items have the same label. -/
def DistinctLabels (items : List CompletionItem) : Prop := (items.map (·.label)).Nodup

theorem DistinctLabels.map {α : Type} {l : List α} {item : α → CompletionItem} (name : α → String)
    (hitem : ∀ a, (item a).label = name a) (h : (l.map name).Nodup) : DistinctLabels (l.map item) := by
  rw [DistinctLabels, List.map_map]
  exact (List.map_congr_left fun a _ => hitem a : l.map ((·.label) ∘ item) = l.map name) ▸ h

theorem DistinctLabels.append {items others : List CompletionItem} (h : DistinctLabels items)
    (h' : DistinctLabels others) (hne : ∀ a ∈ items, ∀ b ∈ others, a.label ≠ b.label) :
    DistinctLabels (items ++ others) := by
  rw [DistinctLabels, List.map_append]
  refine List.nodup_append.2 ⟨h, h', ?_⟩
  rintro _ ha _ hb heq
  obtain ⟨a, hmem, rfl⟩ := List.mem_map.1 ha
  obtain ⟨b, hmem', rfl⟩ := List.mem_map.1 hb
  exact hne a hmem b hmem' heq

/-- What is added to a list leaves out what that has. -/
theorem DistinctLabels.unlisted {items others : List CompletionItem} (h : DistinctLabels items)
    (h' : DistinctLabels others) : DistinctLabels (items ++ unlisted items others) := by
  refine h.append (h'.sublist (List.filter_sublist.map _)) fun a ha b hb heq => ?_
  have hnot := (List.mem_filter.1 hb).2
  simp only [Bool.not_eq_true', List.any_eq_false, beq_iff_eq] at hnot
  exact hnot a ha heq

theorem distinctLabels_nil : DistinctLabels [] := .nil

/-! ### Scripts -/

theorem distinctLabels_globals : DistinctLabels (Catalog.globals.map globalItem) := by
  refine .map (·.name) (fun g => ?_) (by decide +kernel)
  rw [globalItem]
  split <;> rfl

theorem distinctLabels_keywords (language : Language) : DistinctLabels (language.keywords.map keywordItem) := by
  refine .map id (fun _ => rfl) ?_
  cases language <;> decide +kernel

/-- **No name is offered twice.** -/
theorem distinctLabels_namesAt (options : CompletionOptions) {d : Document} (h : d.tree.Keyed) (offset : Nat) :
    DistinctLabels (namesAt options d offset) := by
  have hvisible : DistinctLabels ((d.tree.visible (d.tree.scopeAt ScopeTree.root offset)).map symbolItem) := by
    refine .map (·.name) (fun symbol => ?_) (ScopeTree.nodup_visible h _)
    rw [symbolItem]
    split <;> rfl
  have hglobals : DistinctLabels (if options.includeGlobals then Catalog.globals.map globalItem else []) := by
    split
    · exact distinctLabels_globals
    · exact distinctLabels_nil
  have hkeywords : DistinctLabels (if options.includeKeywords then d.language.keywords.map keywordItem else []) := by
    split
    · exact distinctLabels_keywords d.language
    · exact distinctLabels_nil
  exact (hvisible.unlisted hglobals).unlisted hkeywords

end Completion

theorem OfferedMember.nodup_distinct (l : List OfferedMember) : ((distinct l).map (·.label)).Nodup := by
  induction l using List.reverseRecOn with
  | nil => exact .nil
  | append_singleton l o ih =>
    rw [distinct_concat]
    split
    · exact ih
    · rename_i hnot
      simp only [Bool.not_eq_true, List.any_eq_false, beq_iff_eq] at hnot
      rw [List.map_append]
      refine List.nodup_append.2 ⟨ih, List.pairwise_singleton _ _, ?_⟩
      rintro _ ha _ hb rfl
      obtain ⟨p, hp, heq⟩ := List.mem_map.1 ha
      exact hnot p hp (heq.trans (List.mem_singleton.1 hb))

namespace Completion

/-- **No member is offered twice.** -/
theorem distinctLabels_membersAt (options : CompletionOptions) (d : Document) (dotEnd offset : Nat) :
    DistinctLabels (membersAt options d dotEnd offset) := by
  refine .map (·.label) (fun o => ?_) ?_
  · rw [memberItem]
    split <;> rfl
  · exact ((List.mergeSort_perm _ _).map _).nodup_iff.2 (OfferedMember.nodup_distinct _)

theorem distinctLabels_inScript (options : CompletionOptions) {d : Document} (h : d.tree.Keyed) (start offset : Nat)
    (typed : String) : DistinctLabels (inScript options d start offset typed).entries := by
  rw [inScript]
  dsimp only
  split
  · exact distinctLabels_nil
  · split
    · exact distinctLabels_nil
    · split
      · exact distinctLabels_membersAt ..
      · exact distinctLabels_namesAt options h offset

/-! ### HTML and CSS -/

theorem distinctLabels_tagItems : DistinctLabels tagItems :=
  .map id (fun _ => rfl) (by decide +kernel)

theorem nodup_distinctNames : ∀ (others names : List String),
    (distinctNames others names).Nodup ∧ ∀ name ∈ distinctNames others names, name ∉ others
  | _, [] => ⟨.nil, fun _ h => by cases h⟩
  | others, name :: names => by
    rw [distinctNames]
    split
    · exact nodup_distinctNames others names
    · rename_i hname
      obtain ⟨hnodup, hnot⟩ := nodup_distinctNames (name :: others) names
      refine ⟨List.nodup_cons.2 ⟨fun h => hnot name h List.mem_cons_self, hnodup⟩, fun other hother => ?_⟩
      rcases List.mem_cons.1 hother with rfl | hother
      · exact hname
      · exact fun h => hnot other hother (List.mem_cons_of_mem _ h)

theorem distinctLabels_attributeItems (tag : String) (present : List String) :
    DistinctLabels (attributeItems tag present) := by
  rw [attributeItems]
  obtain ⟨hown, -⟩ := nodup_distinctNames present (Html.tagAttributes tag)
  obtain ⟨hshared, hnot⟩ := nodup_distinctNames
    (distinctNames present (Html.tagAttributes tag) ++ present) Html.globalAttributes
  refine (DistinctLabels.map id (fun _ => rfl) ((List.map_id _).symm ▸ hown)).append
    (.map id (fun _ => rfl) ((List.map_id _).symm ▸ hshared)) ?_
  rintro _ ha _ hb heq
  obtain ⟨a, hmem, rfl⟩ := List.mem_map.1 ha
  obtain ⟨b, hmem', rfl⟩ := List.mem_map.1 hb
  obtain rfl : a = b := heq
  exact hnot a hmem' (List.mem_append_left _ hmem)

theorem distinctLabels_inHtml (before : List Char) (typed : String) : DistinctLabels (inHtml before typed).entries := by
  rw [inHtml]
  dsimp only
  split
  · exact distinctLabels_nil
  · split
    · exact distinctLabels_nil
    · dsimp only
      rw [inTag]
      split
      · exact distinctLabels_tagItems
      · split
        · exact distinctLabels_nil
        · split
          · exact distinctLabels_attributeItems ..
          · exact distinctLabels_attributeItems ..

/-- No property has a value twice, nor one that all properties have. -/
theorem nodup_propertyValues (property : String) : (Css.propertyValues property ++ Css.globalValues).Nodup := by
  have hall : ∀ entry ∈ Css.valuesByProperty, (entry.2 ++ Css.globalValues).Nodup := by decide +kernel
  rw [Css.propertyValues]
  cases h : Css.valuesByProperty.get? (property.map Char.toLower) with
  | none => decide +kernel
  | some values => exact hall _ (Entries.mem_of_get? h)

theorem distinctLabels_inBlock (block : List Char) : DistinctLabels (inBlock block) := by
  rw [inBlock]
  dsimp only
  split
  · have hnodup := nodup_propertyValues
      (String.ofList (Text.trim (beforeFirst ':' ((afterLast? ';' block).getD block))))
    rw [DistinctLabels, List.map_append, List.map_map, List.map_map]
    exact (by simpa [Function.comp_def, valueItem] using hnodup)
  · exact .map id (fun _ => rfl) (by decide +kernel)

theorem distinctLabels_inCss (before : List Char) (typed : String) : DistinctLabels (inCss before typed).entries := by
  rw [inCss]
  dsimp only
  split
  · exact distinctLabels_nil
  · split
    · dsimp only
      split
      · exact distinctLabels_tagItems
      · exact distinctLabels_inBlock _
    · exact distinctLabels_tagItems

end Completion
end Typeahead
