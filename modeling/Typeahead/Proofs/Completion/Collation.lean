/-
# The order of labels is a total preorder

Pieces of different sorts are compared by other means than pieces of one sort, so it is not plain
that the order is transitive. It is because the digits stand next to each other: no other character
lies between two of them. So every piece has a weight, the same for all runs but for their value,
labels are compared by the weights of their pieces, and those of the same weights by the case of
their letters.

Key definitions: `Collation.Piece.Proper`, `Collation.Piece.weight`, `Collation.Piece.caseRank`.
Key theorem: `Collation.compare_eq`.
-/
import Mathlib.Tactic.Common
import Typeahead.Completion.Collation

namespace Typeahead.Collation

open Std

/-! ### Characters -/

theorem isUpper_iff_val (c : Char) : c.isUpper = true ↔ c.val ≥ 'A'.val ∧ c.val ≤ 'Z'.val := decide_eq_true_iff

theorem isUpper_iff (c : Char) : c.isUpper = true ↔ 65 ≤ c.toNat ∧ c.toNat ≤ 90 := isUpper_iff_val c

theorem isLower_iff (c : Char) : c.isLower = true ↔ 97 ≤ c.toNat ∧ c.toNat ≤ 122 :=
  Bool.and_eq_true_iff.trans (and_congr decide_eq_true_iff decide_eq_true_iff)

theorem isDigit_iff (c : Char) : c.isDigit = true ↔ 48 ≤ c.toNat ∧ c.toNat ≤ 57 := Char.isDigit_iff_toNat

theorem toNat_toLower (c : Char) : c.toLower.toNat = if c.isUpper then c.toNat + 32 else c.toNat := by
  by_cases h : c.isUpper = true
  · have hc := (isUpper_iff c).1 h
    have hshift : ('a'.val - 'A'.val).toNat = 32 := by decide
    have hlower : c.toLower.val = c.val + ('a'.val - 'A'.val) :=
      congrArg Char.val (dif_pos ((isUpper_iff_val c).1 h))
    have hnat : c.toLower.toNat = (c.val + ('a'.val - 'A'.val)).toNat := congrArg UInt32.toNat hlower
    rw [if_pos h, hnat, UInt32.toNat_add, hshift]
    exact Nat.mod_eq_of_lt (show c.toNat + 32 < 2 ^ 32 by omega)
  · have hlower : c.toLower = c := dif_neg fun h' => h ((isUpper_iff_val c).2 h')
    rw [if_neg h, hlower]

/-- The lower case of what is no digit is none. -/
theorem toNat_toLower_of_not_digit {c : Char} (hc : c.isDigit = false) :
    c.toLower.toNat < 48 ∨ 57 < c.toLower.toNat := by
  have hdigit := isDigit_iff c
  rw [hc] at hdigit
  rw [toNat_toLower]
  split
  · rename_i hupper
    have := (isUpper_iff c).1 hupper
    omega
  · simp only [Bool.false_eq_true, false_iff, not_and] at hdigit
    omega

/-! ### Pieces -/

/-- A run starts with a digit, and no other piece is one. -/
def Piece.Proper : Piece → Prop
  | .run first _ => first.isDigit = true
  | .char c => c.isDigit = false

/-- What a piece weighs: its character, which is the first digit for every run, and then its value. -/
def Piece.weight : Piece → Nat × Nat
  | .run _ value => (48, value)
  | .char c => (c.toLower.toNat, 0)

/-- Where a piece stands among those of its weight: lower case before upper case. -/
def Piece.caseRank : Piece → Nat
  | .char c => if c.isUpper then 1 else 0
  | .run .. => 0

/-- The order of weights. -/
def compareWeights : Nat × Nat → Nat × Nat → Ordering := compareLex (compareOn Prod.fst) (compareOn Prod.snd)

instance : TransCmp compareWeights := inferInstanceAs (TransCmp (compareLex _ _))

theorem proper_pieces (label : List Char) : ∀ p ∈ pieces label, p.Proper := by
  fun_induction pieces label with
  | case1 => simp
  | case2 c rest hdigit ih => exact List.forall_mem_cons.2 ⟨hdigit, ih⟩
  | case3 c rest hdigit ih => exact List.forall_mem_cons.2 ⟨Bool.eq_false_iff.2 hdigit, ih⟩

/-- A digit stands to another character as the first digit does. -/
theorem compare_digit {d c : Char} (hd : d.isDigit = true) (hc : c.isDigit = false) :
    Ord.compare d.toNat c.toLower.toNat = Ord.compare 48 c.toLower.toNat ∧
      Ord.compare 48 c.toLower.toNat ≠ .eq := by
  have hdigit := (isDigit_iff d).1 hd
  rcases toNat_toLower_of_not_digit hc with h | h
  · rw [Nat.compare_eq_gt.2 (by omega), Nat.compare_eq_gt.2 h]
    exact ⟨rfl, Ordering.noConfusion⟩
  · rw [Nat.compare_eq_lt.2 (by omega), Nat.compare_eq_lt.2 (by omega)]
    exact ⟨rfl, Ordering.noConfusion⟩

/-- **Pieces are compared by their weights.** -/
theorem comparePieces_eq {a b : Piece} (ha : a.Proper) (hb : b.Proper) :
    comparePieces a b = compareWeights a.weight b.weight := by
  cases a with
  | run first value =>
    cases b with
    | run first' value' => simp [comparePieces, compareWeights, Piece.weight, compareLex, compareOn]
    | char c =>
      obtain ⟨heq, hne⟩ := compare_digit ha hb
      rw [comparePieces, heq]
      simp only [compareWeights, Piece.weight, compareLex, compareOn]
      cases h : Ord.compare 48 c.toLower.toNat with
      | eq => exact absurd h hne
      | _ => rfl
  | char c =>
    cases b with
    | run first value =>
      obtain ⟨heq, hne⟩ := compare_digit hb ha
      rw [comparePieces, OrientedOrd.eq_swap, heq]
      simp only [compareWeights, Piece.weight, compareLex, compareOn]
      rw [OrientedOrd.eq_swap (a := c.toLower.toNat)]
      cases h : Ord.compare 48 c.toLower.toNat with
      | eq => exact absurd h hne
      | _ => rfl
    | char c' => simp [comparePieces, compareWeights, Piece.weight, compareLex, compareOn]

/-- Pieces of one weight are of one sort, and characters that differ do so in case. -/
theorem compareCase_cons {a b : Piece} {as bs : List Piece} (ha : a.Proper) (hb : b.Proper)
    (h : comparePieces a b = .eq) :
    compareCase (a :: as) (b :: bs) = (Ord.compare a.caseRank b.caseRank).then (compareCase as bs) := by
  cases a with
  | run first value =>
    cases b with
    | run first' value' => simp [compareCase, Piece.caseRank]
    | char c =>
      obtain ⟨heq, hne⟩ := compare_digit ha hb
      exact absurd (heq ▸ h) hne
  | char c =>
    cases b with
    | run first value =>
      obtain ⟨heq, hne⟩ := compare_digit hb ha
      rw [comparePieces, OrientedOrd.eq_swap, heq] at h
      exact absurd (Ordering.swap_eq_eq.1 h) hne
    | char c' =>
      have hlower : c.toLower.toNat = c'.toLower.toNat := Nat.compare_eq_eq.1 h
      rw [toNat_toLower, toNat_toLower] at hlower
      have hlow := isLower_iff c
      have hlow' := isLower_iff c'
      have hup := isUpper_iff c
      have hup' := isUpper_iff c'
      rw [compareCase, Piece.caseRank, Piece.caseRank]
      by_cases hc : c.isUpper = true <;> by_cases hc' : c'.isUpper = true
      · simp [hc, hc', show c'.isLower = false by grind, show c.isLower = false by grind]
      · simp [hc, hc', show c'.isLower = true by grind, show Ord.compare 1 0 = Ordering.gt by decide]
      · simp [hc, hc', show c.isLower = true by grind, show Ord.compare 0 1 = Ordering.lt by decide]
      · simp [hc, hc']

/-! ### Labels -/

theorem compareAll_eq : ∀ {as bs : List Piece}, (∀ p ∈ as, p.Proper) → (∀ p ∈ bs, p.Proper) →
    compareAll as bs = List.compareLex compareWeights (as.map Piece.weight) (bs.map Piece.weight)
  | [], [], _, _ => rfl
  | [], _ :: _, _, _ => rfl
  | _ :: _, [], _, _ => rfl
  | a :: as, b :: bs, ha, hb => by
    obtain ⟨ha, has⟩ := List.forall_mem_cons.1 ha
    obtain ⟨hb, hbs⟩ := List.forall_mem_cons.1 hb
    rw [compareAll, comparePieces_eq ha hb, compareAll_eq has hbs, List.map_cons, List.map_cons,
      List.compareLex_cons_cons]

theorem compareCase_eq : ∀ {as bs : List Piece}, (∀ p ∈ as, p.Proper) → (∀ p ∈ bs, p.Proper) →
    compareAll as bs = .eq →
    compareCase as bs = List.compareLex Ord.compare (as.map Piece.caseRank) (bs.map Piece.caseRank)
  | [], [], _, _, _ => rfl
  | [], _ :: _, _, _, h => by cases h
  | _ :: _, [], _, _, h => by cases h
  | a :: as, b :: bs, ha, hb, h => by
    obtain ⟨ha, has⟩ := List.forall_mem_cons.1 ha
    obtain ⟨hb, hbs⟩ := List.forall_mem_cons.1 hb
    obtain ⟨hhead, htail⟩ := Ordering.then_eq_eq.1 h
    rw [compareCase_cons ha hb hhead, compareCase_eq has hbs htail, List.map_cons, List.map_cons,
      List.compareLex_cons_cons]

/-- What labels are compared by first. -/
def weights (label : List Char) : List (Nat × Nat) := (pieces label).map Piece.weight

/-- What labels of the same weights are compared by. -/
def caseRanks (label : List Char) : List Nat := (pieces label).map Piece.caseRank

/-- **Labels are compared by their weights, and then by their cases.** -/
theorem compare_eq (a b : List Char) : compare a b =
    (List.compareLex compareWeights (weights a) (weights b)).then
      (List.compareLex Ord.compare (caseRanks a) (caseRanks b)) := by
  have hall := compareAll_eq (proper_pieces a) (proper_pieces b)
  rw [compare, weights, weights, ← hall]
  cases h : compareAll (pieces a) (pieces b) with
  | eq => exact congrArg _ (compareCase_eq (proper_pieces a) (proper_pieces b) h)
  | _ => rfl

/-- An order by what things are compared by is one. -/
theorem transCmp_on {α β : Type} (cmp : β → β → Ordering) [TransCmp cmp] (f : α → β) :
    TransCmp fun a b => cmp (f a) (f b) where
  eq_swap := OrientedCmp.eq_swap
  isLE_trans := TransCmp.isLE_trans

instance : TransCmp compare := by
  have hweights := transCmp_on (List.compareLex compareWeights) weights
  have hcases := transCmp_on (List.compareLex (Ord.compare (α := Nat))) caseRanks
  have heq : compare = compareLex (fun a b => List.compareLex compareWeights (weights a) (weights b))
      fun a b => List.compareLex Ord.compare (caseRanks a) (caseRanks b) :=
    funext fun a => funext fun b => compare_eq a b
  rw [heq]
  infer_instance

end Typeahead.Collation
