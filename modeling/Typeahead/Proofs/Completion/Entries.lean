/-
# What a completion lists

The entries of a completion are the items that match what has been typed, no label twice, in the
order of how they match, how recently they were accepted, and then of the items themselves. What
was accepted and how many entries are wanted decide only the order and where the list is cut.

Key definition: `Completion.compareEntries`.
Key theorems: `Completion.pairwise_rank`, `Completion.perm_rank`, `entries_complete`.
-/
import Typeahead.Proofs.Completion.Collation
import Typeahead.Proofs.Completion.Labels

namespace Typeahead

open Std

namespace Completion

variable {options : CompletionOptions} {recent : RecencyTracker} {typed : List Char} {item : CompletionItem}

/-! ### The order -/

/-- The order of how recently labels were accepted, those that were not last. -/
def compareRecency : Option Nat → Option Nat → Ordering
  | some a, some b => Ord.compare a b
  | some _, none => .lt
  | none, some _ => .gt
  | none, none => .eq

/-- The order of two entries: by the tier at which they match, how recently they were accepted, their
own order, their sort texts and their labels. -/
def compareEntries (options : CompletionOptions) (recent : RecencyTracker) (typed : List Char)
    (a b : CompletionItem) : Ordering :=
  let tier (item : CompletionItem) := (matchTier? options typed item.label.toList).map MatchTier.rank
  (Ord.compare (tier a) (tier b)).then <|
  (compareRecency (recent.rank? a.label) (recent.rank? b.label)).then <|
  (Ord.compare a.order b.order).then <|
  (Collation.compare a.sortText.toList b.sortText.toList).then <|
  Collation.compare a.label.toList b.label.toList

/-- **The order of items is a total preorder.** -/
instance : TransCmp compareRanked := by
  have hsortText := Collation.transCmp_on Collation.compare fun r : RankedItem => r.item.sortText.toList
  have hlabel := Collation.transCmp_on Collation.compare fun r : RankedItem => r.item.label.toList
  exact inferInstanceAs (TransCmp (compareLex (compareOn fun r : RankedItem => r.tier.rank)
    (compareLex (compareOn RankedItem.recency) (compareLex (compareOn fun r : RankedItem => r.item.order)
      (compareLex _ _)))))

theorem ranked?_eq_some {r : RankedItem} : ranked? options recent typed item = some r ↔
    ∃ tier, matchTier? options typed item.label.toList = some tier ∧
      r = ⟨tier, (recent.rank? item.label).getD recent.labels.length, item⟩ := by
  rw [ranked?, Option.map_eq_some_iff]
  exact ⟨fun ⟨t, ht, h⟩ => ⟨t, ht, h.symm⟩, fun ⟨t, ht, h⟩ => ⟨t, ht, h.symm⟩⟩

theorem rank?_lt {label : String} {n : Nat} (h : recent.rank? label = some n) : n < recent.labels.length :=
  (List.findIdx?_eq_some_iff_findIdx_eq.1 h).1

theorem compareRecency_eq (a b : String) : compareRecency (recent.rank? a) (recent.rank? b) =
    Ord.compare ((recent.rank? a).getD recent.labels.length) ((recent.rank? b).getD recent.labels.length) := by
  cases ha : recent.rank? a with
  | some m =>
    cases hb : recent.rank? b with
    | some n => rfl
    | none => exact (Nat.compare_eq_lt.2 (rank?_lt ha)).symm
  | none =>
    cases hb : recent.rank? b with
    | some n => exact (Nat.compare_eq_gt.2 (rank?_lt hb)).symm
    | none => exact (Nat.compare_eq_eq.2 rfl).symm

theorem compareEntries_eq {a b : CompletionItem} {r r' : RankedItem} (ha : ranked? options recent typed a = some r)
    (hb : ranked? options recent typed b = some r') : compareEntries options recent typed a b = compareRanked r r' := by
  obtain ⟨tier, htier, rfl⟩ := ranked?_eq_some.1 ha
  obtain ⟨tier', htier', rfl⟩ := ranked?_eq_some.1 hb
  rw [compareEntries, compareRecency_eq]
  dsimp only
  rw [htier, htier']
  rfl

theorem isLE_total (a b : RankedItem) : ((compareRanked a b).isLE || (compareRanked b a).isLE) = true := by
  rw [@OrientedCmp.eq_swap _ compareRanked _ b a]
  cases compareRanked a b <;> rfl

/-! ### Ranking -/

/-- The items that match, in order. -/
theorem rank_unlimited (h : options.maxResults = 0) (items : List CompletionItem) :
    rank options recent typed items = ((items.filterMap (ranked? options recent typed)).mergeSort
      fun a b => (compareRanked a b).isLE).map (·.item) := by
  rw [rank, if_pos h]

theorem map_item_filterMap (items : List CompletionItem) :
    (items.filterMap (ranked? options recent typed)).map (·.item) =
      items.filter fun item => (matchTier? options typed item.label.toList).isSome := by
  induction items with
  | nil => rfl
  | cons item items ih =>
    rw [List.filterMap_cons, List.filter_cons, ranked?]
    cases matchTier? options typed item.label.toList with
    | none => exact ih
    | some tier => exact congrArg _ ih

/-- **Ranking gives the items that match.** -/
theorem perm_rank (h : options.maxResults = 0) (items : List CompletionItem) :
    (rank options recent typed items).Perm
      (items.filter fun item => (matchTier? options typed item.label.toList).isSome) := by
  rw [rank_unlimited h, ← map_item_filterMap]
  exact (List.mergeSort_perm _ _).map _

/-- **Ranking gives items in order.** -/
theorem pairwise_rank (h : options.maxResults = 0) (items : List CompletionItem) :
    (rank options recent typed items).Pairwise fun a b => (compareEntries options recent typed a b).isLE := by
  have hranked : ∀ r ∈ (items.filterMap (ranked? options recent typed)).mergeSort fun a b => (compareRanked a b).isLE,
      ranked? options recent typed r.item = some r := by
    intro r hr
    obtain ⟨item, -, hitem⟩ := List.mem_filterMap.1 (List.mem_mergeSort.1 hr)
    obtain ⟨tier, -, rfl⟩ := ranked?_eq_some.1 hitem
    exact hitem
  have hsorted : ((items.filterMap (ranked? options recent typed)).mergeSort
      fun a b => (compareRanked a b).isLE).Pairwise fun a b => (compareRanked a b).isLE = true :=
    List.pairwise_mergeSort (fun _ _ _ => TransCmp.isLE_trans) isLE_total _
  rw [rank_unlimited h, List.pairwise_map]
  refine hsorted.imp_of_mem fun hr hr' hle => ?_
  rw [compareEntries_eq (hranked _ hr) (hranked _ hr')]
  exact hle

/-- How many entries are wanted only cuts the list. -/
theorem rank_take (n : Nat) (items : List CompletionItem) :
    rank { options with maxResults := n + 1 } recent typed items =
      (rank { options with maxResults := 0 } recent typed items).take (n + 1) := by
  rw [rank, rank, if_neg (Nat.succ_ne_zero n), if_pos rfl]
  rfl

end Completion

open Completion

/-- What is offered depends neither on how many entries are wanted nor on what was accepted, and no
label is offered twice. -/
theorem exists_offered (options : CompletionOptions) (text : List Char) (language : Language) (offset : Nat) :
    ∃ (word : List Char) (offered : CompletionResult), offered.typed = String.ofList word ∧
      DistinctLabels offered.entries ∧ ∀ most recent,
        complete { options with maxResults := most } recent text language offset =
          { offered with entries := rank { options with maxResults := most } recent word offered.entries } := by
  let d := Document.ofText text language
  let before := (splitWord language (Text.takeUnits (min offset d.length) text)).1
  let word := (splitWord language (Text.takeUnits (min offset d.length) text)).2
  have hkeyed := Document.keyed_tree text language
  cases language with
  | javascript | typescript =>
    refine ⟨word, inScript options d (Text.unitLength before) (min offset d.length) (String.ofList word), ?_,
      distinctLabels_inScript options hkeyed _ _ _, fun _ _ => rfl⟩
    rw [inScript]
    dsimp only
    split
    · rfl
    · split
      · rfl
      · split <;> rfl
  | html =>
    refine ⟨word, inHtml before (String.ofList word), ?_, distinctLabels_inHtml _ _, fun _ _ => rfl⟩
    rw [inHtml]
    dsimp only
    split
    · rfl
    · split <;> rfl
  | css =>
    refine ⟨word, inCss before (String.ofList word), ?_, distinctLabels_inCss _ _, fun _ _ => rfl⟩
    rw [inCss]
    dsimp only
    split
    · rfl
    · split <;> rfl

/-- **The entries of a completion**: no label comes twice, each matches what has been typed, and they
are in order. A limit keeps the first of them, and without what was accepted they are the same in
another order. -/
theorem entries_complete (options : CompletionOptions) (recent : RecencyTracker) (text : List Char)
    (language : Language) (offset : Nat) :
    let limited (most : Nat) : CompletionOptions := { options with maxResults := most }
    let all := complete (limited 0) recent text language offset
    (all.entries.map (·.label)).Nodup ∧
      (∀ item ∈ all.entries, (matchTier? options all.typed.toList item.label.toList).isSome) ∧
      all.entries.Pairwise (fun a b => (compareEntries options recent all.typed.toList a b).isLE) ∧
      (∀ n, (complete (limited (n + 1)) recent text language offset).entries = all.entries.take (n + 1)) ∧
      ∀ capacity, (complete (limited 0) (.empty capacity) text language offset).entries.Perm all.entries := by
  intro limited all
  obtain ⟨word, offered, htyped, hdistinct, hcomplete⟩ := exists_offered options text language offset
  have hall : all = { offered with entries := rank (limited 0) recent word offered.entries } := hcomplete 0 recent
  have hword : all.typed.toList = word := by rw [hall, htyped, String.toList_ofList]
  have hentries : all.entries = rank (limited 0) recent word offered.entries := by rw [hall]
  have hperm : (rank (limited 0) recent word offered.entries).Perm
      (offered.entries.filter fun item => (matchTier? (limited 0) word item.label.toList).isSome) :=
    perm_rank rfl offered.entries
  have hpairs : (rank (limited 0) recent word offered.entries).Pairwise fun a b =>
      (compareEntries (limited 0) recent word a b).isLE := pairwise_rank rfl offered.entries
  rw [hword, hentries]
  refine ⟨?_, fun item hitem => ?_, hpairs, fun n => ?_, fun capacity => ?_⟩
  · exact (hperm.map _).nodup_iff.2 (hdistinct.sublist (List.filter_sublist.map _))
  · exact (List.mem_filter.1 (hperm.mem_iff.1 hitem)).2
  · rw [hcomplete (n + 1) recent]
    exact rank_take n offered.entries
  · rw [hcomplete 0 (.empty capacity)]
    exact (perm_rank rfl offered.entries).trans hperm.symm

end Typeahead
