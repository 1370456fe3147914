/-
# The search that remembers finds every way to pick

What has been typed matches a label by its words if its characters can be picked from the label one
after the other: the first of the label first, each later one right behind the last or where a word
starts. The search for such places goes back where it fails, and keeps in a memory, in a row for each
typed character and a slot for each place, what it has decided.

The memory is sound: every answer in it is right. The slot of a typed character and a place stands for
that character and place alone, so to reuse an answer is sound; and no slot that is looked at or written
lies outside, so the search always answers.

Key definitions: `Picks`, `CamelCase.Reaches`, `CamelCase.Sound`, `CamelCase.Decides`.
Key theorems: `CamelCase.decides_search`, `CamelCase.reaches_iff`, `camelCaseMatch_iff`.
-/
import Mathlib.Data.List.Chain
import Mathlib.Data.List.Forall2
import Typeahead.Completion.Matching

namespace Typeahead

open CamelCase

/-- What has been typed is picked at the places of a label: the first place of the label is the first,
and every other follows the one before directly or starts a word behind it. -/
structure Picks (caseSensitive : Bool) (typed label : List Char) (places : List Nat) : Prop where
  first : places.head? = some 0
  next : places.IsChain fun i j => i < j ∧ (j = i + 1 ∨ isWordStart label j = true)
  same : List.Forall₂ (fun t i => ∃ c, label[i]? = some c ∧ same caseSensitive t c = true) typed places

namespace CamelCase

variable {caseSensitive : Bool} {label typed rest : List Char} {index place : Nat} {P Q : Prop}

/-! ### Places -/

/-- What is left of what has been typed can be picked from a place on. -/
def Reaches (caseSensitive : Bool) (label : List Char) : List Char → Nat → Prop
  | [], _ => True
  | wanted :: rest, place => ∃ j ∈ candidates label place,
      label[j]?.any (same caseSensitive wanted) = true ∧ Reaches caseSensitive label rest (j + 1)

theorem mem_candidates {j : Nat} (hj : j < label.length) :
    j ∈ candidates label place ↔ place ≤ j ∧ (j = place ∨ isWordStart label j = true) := by
  simp only [candidates, starts, List.mem_cons, List.mem_filter, List.mem_range, decide_eq_true_eq, hj, true_and]
  rcases Nat.lt_trichotomy place j with h | rfl | h
  · simp [h, h.le, h.ne']
  · simp
  · simp [h.ne, h.not_gt, h.not_ge]

theorem any_getElem?_iff {p : Char → Bool} {j : Nat} :
    label[j]?.any p = true ↔ ∃ c, label[j]? = some c ∧ p c = true := by
  cases label[j]? <;> simp

theorem lt_length_of_any {p : Char → Bool} {j : Nat} (h : label[j]?.any p = true) : j < label.length := by
  obtain ⟨c, hc, -⟩ := any_getElem?_iff.1 h
  exact (List.getElem?_eq_some_iff.1 hc).1

theorem le_of_mem_candidates {j : Nat} (h : j ∈ candidates label place) : place ≤ j := by
  simp only [candidates, List.mem_cons, List.mem_filter, decide_eq_true_eq] at h
  omega

/-- A label that is picked from is long enough. -/
theorem Reaches.length_le : ∀ {rest : List Char} {place : Nat}, place ≤ label.length →
    Reaches caseSensitive label rest place → place + rest.length ≤ label.length
  | [], _, hplace, _ => hplace
  | _ :: rest, place, _, ⟨j, hj, hsame, hrest⟩ => by
    have hlater := hrest.length_le (lt_length_of_any hsame)
    have := le_of_mem_candidates hj
    rw [List.length_cons]
    omega

/-- To reach the end from a place is to pick places, none of them before it. -/
theorem reaches_iff : ∀ {rest : List Char} {place : Nat},
    Reaches caseSensitive label rest place ↔ ∃ places : List Nat,
      (∀ j ∈ places.head?, place ≤ j ∧ (j = place ∨ isWordStart label j = true)) ∧
      (places.IsChain fun i j => i < j ∧ (j = i + 1 ∨ isWordStart label j = true)) ∧
      List.Forall₂ (fun t i => ∃ c, label[i]? = some c ∧ same caseSensitive t c = true) rest places
  | [], place => ⟨fun _ => ⟨[], by simp⟩, fun _ => trivial⟩
  | wanted :: rest, place => by
    constructor
    · rintro ⟨j, hj, hsame, hrest⟩
      obtain ⟨places, hfirst, hchain, hall⟩ := reaches_iff.1 hrest
      refine ⟨j :: places, ?_, List.isChain_cons.2 ⟨hfirst, hchain⟩, .cons (any_getElem?_iff.1 hsame) hall⟩
      simpa using (mem_candidates (lt_length_of_any hsame)).1 hj
    · rintro ⟨places, hfirst, hchain, hall⟩
      cases hall with
      | @cons _ j _ places hsame hall =>
        have hsame := any_getElem?_iff.2 hsame
        obtain ⟨hnext, hchain⟩ := List.isChain_cons.1 hchain
        exact ⟨j, (mem_candidates (lt_length_of_any hsame)).2 (hfirst j rfl), hsame,
          reaches_iff.2 ⟨places, hnext, hchain, hall⟩⟩

/-! ### The memory -/

/-- There is a slot for each typed character and place, and what is remembered is right. -/
structure Sound (caseSensitive : Bool) (label typed : List Char) (memo : Memo) : Prop where
  size : memo.size = typed.length * (label.length + 1)
  right : ∀ slot known, memo[slot]? = some (some known) → (known = true ↔
    Reaches caseSensitive label (typed.drop (slot / (label.length + 1))) (slot % (label.length + 1)))

/-- From a sound memory the search answers whether `P` holds, and leaves a sound memory. -/
def Decides (caseSensitive : Bool) (label typed : List Char) (x : Search Bool) (P : Prop) : Prop :=
  ∀ memo, Sound caseSensitive label typed memo →
    ∃ found memo', x memo = some (found, memo') ∧ Sound caseSensitive label typed memo' ∧ (found = true ↔ P)

theorem sound_replicate :
    Sound caseSensitive label typed (.replicate (typed.length * (label.length + 1)) none) where
  size := Array.size_replicate
  right slot known h := by
    rw [Array.getElem?_replicate] at h
    split at h <;> cases h

theorem Sound.lt_size {memo : Memo} (h : Sound caseSensitive label typed memo) (hindex : index < typed.length)
    (hplace : place ≤ label.length) : index * (label.length + 1) + place < memo.size := by
  have hrow : (index + 1) * (label.length + 1) ≤ typed.length * (label.length + 1) :=
    Nat.mul_le_mul_right _ hindex
  rw [Nat.add_mul] at hrow
  rw [h.size]
  omega

/-- A slot stands for one typed character and one place. -/
theorem slot_div_mod (index : Nat) (hplace : place ≤ label.length) :
    (index * (label.length + 1) + place) / (label.length + 1) = index ∧
      (index * (label.length + 1) + place) % (label.length + 1) = place := by
  have hlt : place < label.length + 1 := Nat.lt_succ_of_le hplace
  rw [Nat.mul_comm]
  exact ⟨by rw [Nat.mul_add_div (Nat.succ_pos _), Nat.div_eq_of_lt hlt, Nat.add_zero],
    by rw [Nat.mul_add_mod, Nat.mod_eq_of_lt hlt]⟩

theorem Sound.set {memo : Memo} (h : Sound caseSensitive label typed memo) (hplace : place ≤ label.length)
    (hslot : index * (label.length + 1) + place < memo.size) {found : Bool}
    (hfound : found = true ↔ Reaches caseSensitive label (typed.drop index) place) :
    Sound caseSensitive label typed (memo.set (index * (label.length + 1) + place) (some found) hslot) where
  size := (Array.size_set ..).trans h.size
  right slot known hknown := by
    rw [Array.getElem?_set] at hknown
    split at hknown
    · rename_i hsame
      cases hknown
      obtain ⟨hdiv, hmod⟩ := slot_div_mod index hplace
      rw [← hsame, hdiv, hmod]
      exact hfound
    · exact h.right slot known hknown

/-! ### The search -/

namespace Decides

theorem pure {b : Bool} (h : b = true ↔ P) : Decides caseSensitive label typed (Pure.pure b) P :=
  fun memo hmemo => ⟨b, memo, rfl, hmemo, h⟩

theorem guard {c : Bool} {x : Search Bool} (h : c = true → Decides caseSensitive label typed x P) :
    Decides caseSensitive label typed (if c = true then x else Pure.pure false) (c = true ∧ P) := by
  cases c with
  | true => simpa using h rfl
  | false => exact pure (by simp)

theorem anyM {x : Nat → Search Bool} {P : Nat → Prop} : ∀ {places : List Nat},
    (∀ j ∈ places, Decides caseSensitive label typed (x j) (P j)) →
      Decides caseSensitive label typed (places.anyM x) (∃ j ∈ places, P j)
  | [], _ => pure (by simp)
  | j :: places, h => by
    intro memo hmemo
    obtain ⟨hj, hplaces⟩ := List.forall_mem_cons.1 h
    obtain ⟨found, memo', hrun, hmemo', hfound⟩ := hj memo hmemo
    cases found with
    | true =>
      refine ⟨true, memo', ?_, hmemo', ?_⟩
      · simp only [List.anyM, bind, StateT.bind, hrun]
        rfl
      · simp [hfound.1 rfl]
    | false =>
      obtain ⟨later, memo'', hrun', hmemo'', hlater⟩ := anyM hplaces memo' hmemo'
      have hnot : ¬ P j := fun hp => Bool.false_ne_true (hfound.2 hp)
      refine ⟨later, memo'', ?_, hmemo'', ?_⟩
      · simp only [List.anyM, bind, StateT.bind, hrun]
        exact hrun'
      · simp [hnot, hlater]

end Decides

/-- The ways to pick a character at each of the candidates for it. -/
def searchAt (caseSensitive : Bool) (label : List Char) (wanted : Char) (rest : List Char) (index place : Nat) :
    Search Bool :=
  (candidates label place).anyM fun j =>
    if label[j]?.any (same caseSensitive wanted) then search caseSensitive label rest (index + 1) (j + 1)
    else pure false

theorem bind_of_some {α β : Type} {x : Search α} {f : α → Search β} {memo memo' : Memo} {a : α}
    (h : x memo = some (a, memo')) : (x >>= f) memo = f a memo' := by
  simp only [bind, StateT.bind, h, Option.bind_some]

theorem remembered_of_some {slot : Nat} {memo : Memo} {answer : Option Bool} (h : memo[slot]? = some answer) :
    remembered slot memo = some (answer, memo) := by
  rw [remembered, h, Option.map_some]

section

variable {wanted : Char} {memo memo' : Memo}

/-- What is remembered is the answer. -/
theorem search_of_known {known : Bool} (h : memo[index * (label.length + 1) + place]? = some (some known)) :
    search caseSensitive label (wanted :: rest) index place memo = some (known, memo) := by
  rw [search]
  exact bind_of_some (remembered_of_some h)

/-- What is not remembered is searched for, and the answer remembered. -/
theorem search_of_unknown {found : Bool} (h : memo[index * (label.length + 1) + place]? = some none)
    (hrun : searchAt caseSensitive label wanted rest index place memo = some (found, memo'))
    (hslot : index * (label.length + 1) + place < memo'.size) :
    search caseSensitive label (wanted :: rest) index place memo =
      some (found, memo'.set (index * (label.length + 1) + place) (some found) hslot) := by
  have hremember : remember (index * (label.length + 1) + place) found memo' =
      some ((), memo'.set (index * (label.length + 1) + place) (some found) hslot) := dif_pos hslot
  rw [search]
  exact (bind_of_some (remembered_of_some h)).trans ((bind_of_some hrun).trans (bind_of_some hremember))

end

/-- **The search decides whether the rest can be picked**, and looks at no slot outside of its memory. -/
theorem decides_search : ∀ (rest : List Char) (index place : Nat), typed.drop index = rest →
    place ≤ label.length → Decides caseSensitive label typed (search caseSensitive label rest index place)
      (Reaches caseSensitive label rest place)
  | [], _, _, _, _ => .pure (by simp [Reaches])
  | wanted :: rest, index, place, hdrop, hplace => by
    intro memo hmemo
    have hindex : index < typed.length := by
      have := congrArg List.length hdrop
      rw [List.length_drop, List.length_cons] at this
      omega
    have hrest : typed.drop (index + 1) = rest := by rw [← List.tail_drop, hdrop, List.tail_cons]
    have hslot := hmemo.lt_size hindex hplace
    cases hknown : memo[index * (label.length + 1) + place] with
    | some known =>
      have hget : memo[index * (label.length + 1) + place]? = some (some known) := by
        rw [Array.getElem?_eq_getElem hslot, hknown]
      have hright := hmemo.right _ _ hget
      obtain ⟨hdiv, hmod⟩ := slot_div_mod index hplace
      rw [hdiv, hmod, hdrop] at hright
      exact ⟨known, memo, search_of_known hget, hmemo, hright⟩
    | none =>
      have hget : memo[index * (label.length + 1) + place]? = some none := by
        rw [Array.getElem?_eq_getElem hslot, hknown]
      have hany : Decides caseSensitive label typed (searchAt caseSensitive label wanted rest index place)
          (Reaches caseSensitive label (wanted :: rest) place) :=
        .anyM fun j _ => .guard fun hsame => decides_search rest (index + 1) (j + 1) hrest (lt_length_of_any hsame)
      obtain ⟨found, memo', hrun, hmemo', hfound⟩ := hany memo hmemo
      have hslot' := hmemo'.lt_size hindex hplace
      exact ⟨found, _, search_of_unknown hget hrun hslot', hmemo'.set hplace hslot' (hdrop ▸ hfound), hfound⟩

end CamelCase

/-! ### Matching by words -/

/-- To pick what has been typed is to pick its first character first and the rest behind it. -/
theorem exists_picks_cons (caseSensitive : Bool) (t c : Char) (typed label : List Char) :
    (∃ places, Picks caseSensitive (t :: typed) (c :: label) places) ↔
      same caseSensitive t c = true ∧ Reaches caseSensitive (c :: label) typed 1 := by
  rw [reaches_iff]
  constructor
  · rintro ⟨places, hfirst, hnext, hsame⟩
    cases hsame with
    | @cons _ i _ places hc hsame =>
      obtain rfl : i = 0 := by simpa using hfirst
      obtain ⟨hsecond, hnext⟩ := List.isChain_cons.1 hnext
      exact ⟨by simpa using hc, places, hsecond, hnext, hsame⟩
  · rintro ⟨hc, places, hsecond, hnext, hsame⟩
    exact ⟨0 :: places, rfl, List.isChain_cons.2 ⟨hsecond, hnext⟩, .cons ⟨c, rfl, hc⟩ hsame⟩

/-- **The search that remembers finds every way to pick.** It never looks outside of its memory, and what has
been typed matches a label that is not too long if and only if it is picked at some places of the label. -/
theorem camelCaseMatch_iff (caseSensitive : Bool) (typed label : List Char) :
    camelCaseMatch? caseSensitive typed label = some (camelCaseMatch caseSensitive typed label) ∧
      (camelCaseMatch caseSensitive typed label = true ↔
        typed = [] ∨ label.length ≤ labelLimit ∧ ∃ places, Picks caseSensitive typed label places) := by
  suffices ∃ found, camelCaseMatch? caseSensitive typed label = some found ∧ (found = true ↔
      typed = [] ∨ label.length ≤ labelLimit ∧ ∃ places, Picks caseSensitive typed label places) by
    obtain ⟨found, hrun, hfound⟩ := this
    rw [camelCaseMatch, hrun]
    exact ⟨rfl, hfound⟩
  cases typed with
  | nil => exact ⟨true, rfl, by simp⟩
  | cons t typed =>
    cases label with
    | nil =>
      refine ⟨false, rfl, iff_of_false Bool.false_ne_true ?_⟩
      rintro (h | ⟨-, places, -, -, hsame⟩)
      · cases h
      · cases hsame with
        | cons hc _ => simp at hc
    | cons c label =>
      have hpicks := exists_picks_cons caseSensitive t c typed label
      simp only [reduceCtorEq, false_or, hpicks]
      by_cases hguard : ((c :: label).length ≤ labelLimit && (t :: typed).length ≤ (c :: label).length &&
          same caseSensitive t c) = true
      · have hsearch : Decides caseSensitive (c :: label) (t :: typed) (search caseSensitive (c :: label) typed 1 1)
            (Reaches caseSensitive (c :: label) typed 1) := decides_search typed 1 1 rfl (by simp)
        obtain ⟨found, memo, hrun, -, hfound⟩ := hsearch _ sound_replicate
        refine ⟨found, ?_, ?_⟩
        · rw [camelCaseMatch?, if_pos hguard, hrun, Option.map_some]
        · simp only [Bool.and_eq_true, decide_eq_true_eq] at hguard
          obtain ⟨⟨hlimit, -⟩, hc⟩ := hguard
          rw [hfound]
          exact ⟨fun h => ⟨hlimit, hc, h⟩, fun h => h.2.2⟩
      · refine ⟨false, by rw [camelCaseMatch?, if_neg hguard], iff_of_false Bool.false_ne_true ?_⟩
        rintro ⟨hlimit, hc, hreaches⟩
        have hlength := hreaches.length_le (by simp)
        simp only [List.length_cons] at hlimit hlength
        simp only [Bool.and_eq_true, decide_eq_true_eq, List.length_cons] at hguard
        exact hguard ⟨⟨hlimit, by omega⟩, hc⟩

/-- The typed characters pick the start and three words. -/
example : camelCaseMatch? true "gEBI".toList "getElementById".toList = some true := by decide +kernel

end Typeahead
