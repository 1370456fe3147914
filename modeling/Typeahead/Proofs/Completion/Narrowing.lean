/-
# Typing narrows

What has been typed only loses labels as it grows. Each tier asks something of a label, and what it asks
for more that has been typed it asks for less of it. A tier is only looked at where the better ones do
not admit the label, so with less typed the label may come in at a better tier, but at no worse one.

Key definition: `MatchTier.Admits`.
Key theorems: `MatchTier.Admits.of_append`, `matchTier?_append`.
-/
import Typeahead.Proofs.Completion.Picking

namespace Typeahead

open CamelCase

variable {caseSensitive : Bool} {typed more label : List Char} {options : CompletionOptions}

/-! ### Less that has been typed -/

theorem startsUpToCase_of_append : ∀ {typed label : List Char}, startsUpToCase (typed ++ more) label = true →
    startsUpToCase typed label = true
  | [], _, _ => by simp [startsUpToCase]
  | t :: typed, [], h => by simp [startsUpToCase] at h
  | t :: typed, c :: label, h => by
    rw [List.cons_append, startsUpToCase, Bool.and_eq_true] at h
    rw [startsUpToCase, Bool.and_eq_true]
    exact ⟨h.1, startsUpToCase_of_append h.2⟩

/-- The places picked for more begin with places for less of it. -/
theorem CamelCase.Reaches.of_append : ∀ {typed : List Char} {place : Nat},
    Reaches caseSensitive label (typed ++ more) place → Reaches caseSensitive label typed place
  | [], _, _ => trivial
  | _ :: _, _, ⟨j, hj, hsame, hrest⟩ => ⟨j, hj, hsame, hrest.of_append⟩

/-- A search that is started decides whether the rest can be picked. -/
theorem camelCaseMatch_cons {t c : Char} : camelCaseMatch caseSensitive (t :: typed) (c :: label) = true ↔
    ((c :: label).length ≤ labelLimit && (t :: typed).length ≤ (c :: label).length && same caseSensitive t c) = true ∧
      Reaches caseSensitive (c :: label) typed 1 := by
  rw [camelCaseMatch, camelCaseMatch?]
  split
  · rename_i hguard
    have hsearch : Decides caseSensitive (c :: label) (t :: typed) (search caseSensitive (c :: label) typed 1 1)
        (Reaches caseSensitive (c :: label) typed 1) := decides_search typed 1 1 rfl (by simp)
    obtain ⟨found, memo, hrun, -, hfound⟩ := hsearch _ sound_replicate
    rw [hrun]
    exact hfound.trans (and_iff_right hguard).symm
  · rename_i hguard
    exact iff_of_false Bool.false_ne_true fun h => hguard h.1

theorem camelCaseMatch_of_append (h : camelCaseMatch caseSensitive (typed ++ more) label = true) :
    camelCaseMatch caseSensitive typed label = true := by
  cases typed with
  | nil => rfl
  | cons t typed =>
    cases label with
    | nil => cases h
    | cons c label =>
      have hlonger : camelCaseMatch caseSensitive (t :: (typed ++ more)) (c :: label) = true := h
      obtain ⟨hguard, hreaches⟩ := camelCaseMatch_cons.1 hlonger
      refine camelCaseMatch_cons.2 ⟨?_, hreaches.of_append⟩
      simp only [Bool.and_eq_true, decide_eq_true_eq, List.length_cons, List.length_append] at hguard ⊢
      exact ⟨⟨hguard.1.1, by omega⟩, hguard.2⟩

/-! ### What a tier asks of a label -/

/-- A tier admits a label, whether or not a better one does. -/
def MatchTier.Admits (options : CompletionOptions) (typed label : List Char) : MatchTier → Prop
  | .sameCase => typed <+: label
  | .anyCase => options.caseSensitive = false ∧ startsUpToCase typed label = true
  | .wordStarts => options.camelCaseMatching = true ∧ camelCaseMatch options.caseSensitive typed label = true

namespace MatchTier

/-- A tier that admits a label for more admits it for less. -/
theorem Admits.of_append : ∀ {tier : MatchTier}, tier.Admits options (typed ++ more) label →
    tier.Admits options typed label
  | .sameCase, h => (List.prefix_append typed more).trans h
  | .anyCase, ⟨hcase, h⟩ => ⟨hcase, startsUpToCase_of_append h⟩
  | .wordStarts, ⟨hwords, h⟩ => ⟨hwords, camelCaseMatch_of_append h⟩

/-- The tier of a label admits it. -/
theorem admits_of_matchTier? {tier : MatchTier} (h : matchTier? options typed label = some tier) :
    tier.Admits options typed label := by
  rw [matchTier?] at h
  split at h
  · rename_i hprefix
    cases h
    exact List.isPrefixOf_iff_prefix.1 hprefix
  · split at h
    · rename_i hcase
      cases h
      simpa [Admits] using hcase
    · split at h
      · rename_i hwords
        cases h
        simpa [Admits] using hwords
      · cases h

/-- A label that a tier admits has a tier, that one or a better one. -/
theorem Admits.exists_matchTier? {tier : MatchTier} (h : tier.Admits options typed label) :
    ∃ best, matchTier? options typed label = some best ∧ best.rank ≤ tier.rank := by
  rw [matchTier?]
  split
  · exact ⟨.sameCase, rfl, Nat.zero_le _⟩
  · rename_i hprefix
    have hsame : tier ≠ .sameCase := by
      rintro rfl
      exact hprefix (List.isPrefixOf_iff_prefix.2 h)
    split
    · refine ⟨.anyCase, rfl, ?_⟩
      cases tier with
      | sameCase => exact absurd rfl hsame
      | anyCase | wordStarts => decide
    · rename_i hcase
      cases tier with
      | sameCase => exact absurd rfl hsame
      | anyCase => exact absurd (by simpa [Admits] using h) hcase
      | wordStarts => exact ⟨.wordStarts, if_pos (by simpa [Admits] using h), Nat.le_refl _⟩

end MatchTier

/-- **Typing narrows.** A label that matches what has been typed matched it before the last of it was
typed, and at a tier that was no worse. -/
theorem matchTier?_append {tier : MatchTier} (h : matchTier? options (typed ++ more) label = some tier) :
    ∃ before, matchTier? options typed label = some before ∧ before.rank ≤ tier.rank :=
  (MatchTier.admits_of_matchTier? h).of_append.exists_matchTier?

/-- With `gete` typed the label matches up to case, with `geteB` by its words. -/
theorem matchTier?_append_word :
    matchTier? {} ("gete".toList ++ ['B']) "getElementById".toList = some .wordStarts ∧
      ∃ before, matchTier? {} "gete".toList "getElementById".toList = some before ∧
        before.rank ≤ MatchTier.wordStarts.rank :=
  have h : matchTier? {} ("gete".toList ++ ['B']) "getElementById".toList = some .wordStarts := by decide +kernel
  ⟨h, matchTier?_append h⟩

end Typeahead
