/-
# Labels that stand in the same place

The order of labels is a total preorder, and it is plain which labels it does not tell apart. A label
falls into its longest runs of digits and every other character alone. These parts are the pieces that
labels are compared by, and two of them have the same key, a weight and a case, where they are the same
character or runs of the same value. So labels are compared as equal where their parts agree one by one.

Key definitions: `Collation.parts`, `Collation.saturatedValue`, `Collation.SamePart`.
Key theorems: `Collation.pieces_eq`, `Collation.key_pieceOf_eq`, `Collation.compare_preorder`.
-/
import Mathlib.Data.List.SplitBy
import Typeahead.Proofs.Completion.Collation

namespace Typeahead.Collation

open Std

/-! ### Parts -/

/-- Both characters are digits. -/
def bothDigits (a b : Char) : Bool := a.isDigit && b.isDigit

/-- The longest runs of digits of a label, and every other character alone. -/
def parts (label : List Char) : List (List Char) := label.splitBy bothDigits

/-- A value and one more digit. The product and the sum stop at the largest value. -/
def appendDigit (value : Nat) (d : Char) : Nat := min (min (value * 10) runLimit + (d.toNat - 48)) runLimit

/-- The value of a run that is read digit by digit. -/
def saturatedValue (run : List Char) : Nat := run.foldl appendDigit 0

/-- Two parts are the same, or runs of one value. -/
def SamePart (x y : List Char) : Prop :=
  x = y ∨ x.all Char.isDigit = true ∧ y.all Char.isDigit = true ∧ saturatedValue x = saturatedValue y

/-- A digit or more, or one character that is none. -/
inductive IsPart : List Char → Prop where
  | run {c rest} : c.isDigit = true → rest.all Char.isDigit = true → IsPart (c :: rest)
  | char {c} : c.isDigit = false → IsPart [c]

/-- The piece that a part is. -/
def pieceOf (part : List Char) : Piece :=
  if (part.headD '0').isDigit then .run (part.headD '0') (runValue part) else .char (part.headD '0')

/-- A value that has grown too large stays so. -/
theorem foldl_appendDigit (run : List Char) : ∀ value, run.foldl appendDigit (min value runLimit) =
    min (run.foldl (fun value d => 10 * value + (d.toNat - 48)) value) runLimit := by
  induction run with
  | nil => exact fun _ => rfl
  | cons d run ih =>
    intro value
    have hstep : appendDigit (min value runLimit) d = min (10 * value + (d.toNat - 48)) runLimit := by
      rw [appendDigit]
      omega
    rw [List.foldl_cons, List.foldl_cons, hstep, ih]

/-- It makes no difference whether a value is cut at every digit or at the end. -/
theorem runValue_eq (run : List Char) : runValue run = saturatedValue run := (foldl_appendDigit run 0).symm

theorem bothDigits_of_not {a b : Char} (h : a.isDigit = false ∨ b.isDigit = false) : bothDigits a b = false :=
  Bool.and_eq_false_iff.2 h

theorem parts_digit {c : Char} (rest : List Char) (hc : c.isDigit = true) :
    parts (c :: rest) = (c :: rest.takeWhile Char.isDigit) :: parts (rest.dropWhile Char.isDigit) := by
  have hrun : ∀ d ∈ c :: rest.takeWhile Char.isDigit, d.isDigit = true :=
    List.forall_mem_cons.2 ⟨hc, fun d hd => List.all_eq_true.1 List.all_takeWhile d hd⟩
  have hchain : (c :: rest.takeWhile Char.isDigit).IsChain fun a b => bothDigits a b = true :=
    (List.pairwise_of_forall_mem_list fun a ha b hb => Bool.and_eq_true_iff.2 ⟨hrun a ha, hrun b hb⟩).isChain
  have hnext : ∀ a ∈ (c :: rest.takeWhile Char.isDigit).getLast?, ∀ b ∈ (rest.dropWhile Char.isDigit).head?,
      bothDigits a b = false := by
    intro a _ b hb
    have hhead := List.head?_dropWhile_not Char.isDigit rest
    rw [hb] at hhead
    exact bothDigits_of_not (.inr hhead)
  calc parts (c :: rest)
      = parts ((c :: rest.takeWhile Char.isDigit) ++ rest.dropWhile Char.isDigit) := by
        rw [List.cons_append, List.takeWhile_append_dropWhile]
    _ = parts (c :: rest.takeWhile Char.isDigit) ++ parts (rest.dropWhile Char.isDigit) :=
        List.splitBy_append hnext
    _ = [c :: rest.takeWhile Char.isDigit] ++ parts (rest.dropWhile Char.isDigit) :=
        congrArg (· ++ _) (List.splitBy_of_isChain (by simp) hchain)

theorem parts_char {c : Char} (rest : List Char) (hc : c.isDigit = false) : parts (c :: rest) = [c] :: parts rest := by
  refine List.splitBy_append (l := [c]) (m := rest) fun a ha b _ => ?_
  obtain rfl : c = a := by simpa using ha
  exact bothDigits_of_not (.inl hc)

/-- **The pieces of a label are its parts.** -/
theorem pieces_eq (label : List Char) : pieces label = (parts label).map pieceOf := by
  fun_induction pieces label with
  | case1 => rfl
  | case2 c rest hdigit ih => rw [parts_digit rest hdigit, List.map_cons, ih, pieceOf, List.headD_cons, if_pos hdigit]
  | case3 c rest hdigit ih =>
    rw [parts_char rest (Bool.eq_false_iff.2 hdigit), List.map_cons, ih, pieceOf, List.headD_cons, if_neg hdigit]

theorem isPart_of_mem (label : List Char) : ∀ x ∈ parts label, IsPart x := by
  fun_induction pieces label with
  | case1 => simp [parts]
  | case2 c rest hdigit ih =>
    rw [parts_digit rest hdigit]
    exact List.forall_mem_cons.2 ⟨.run hdigit List.all_takeWhile, ih⟩
  | case3 c rest hdigit ih =>
    rw [parts_char rest (Bool.eq_false_iff.2 hdigit)]
    exact List.forall_mem_cons.2 ⟨.char (Bool.eq_false_iff.2 hdigit), ih⟩

/-! ### Keys -/

/-- What a piece is compared by: its weight, and then its case. -/
def Piece.key (p : Piece) : (Nat × Nat) × Nat := (p.weight, p.caseRank)

/-- Characters of one lower case that are in the same case are one. -/
theorem key_char_inj {c d : Char} : (Piece.char c).key = (Piece.char d).key ↔ c = d := by
  refine ⟨fun h => ?_, fun h => h ▸ rfl⟩
  simp only [Piece.key, Piece.weight, Piece.caseRank, Prod.mk.injEq, and_true, toNat_toLower] at h
  obtain ⟨hlower, hcase⟩ := h
  apply Char.toNat_inj.1
  by_cases hc : c.isUpper = true <;> by_cases hd : d.isUpper = true <;> simp_all

theorem key_run_ne_char {first c : Char} {value : Nat} (hc : c.isDigit = false) :
    (Piece.run first value).key ≠ (Piece.char c).key := by
  intro h
  simp only [Piece.key, Piece.weight, Prod.mk.injEq] at h
  have := toNat_toLower_of_not_digit hc
  omega

theorem pieceOf_run {c : Char} {rest : List Char} (hc : c.isDigit = true) :
    pieceOf (c :: rest) = .run c (saturatedValue (c :: rest)) := by
  rw [pieceOf, List.headD_cons, if_pos hc, runValue_eq]

theorem pieceOf_char {c : Char} (hc : c.isDigit = false) : pieceOf [c] = .char c := by
  rw [pieceOf, List.headD_cons, hc, if_neg Bool.false_ne_true]

theorem samePart_comm {x y : List Char} : SamePart x y ↔ SamePart y x := by
  simp only [SamePart, eq_comm, and_left_comm]

theorem not_samePart_run_char {c d : Char} {rest : List Char} (hc : c.isDigit = true) (hd : d.isDigit = false) :
    ¬ SamePart (c :: rest) [d] := by
  rintro (h | ⟨-, h, -⟩)
  · injection h with h
    rw [h, hd] at hc
    cases hc
  · simp [hd] at h

/-- **Parts are compared as equal where they are the same.** -/
theorem key_pieceOf_eq {x y : List Char} (hx : IsPart x) (hy : IsPart y) :
    (pieceOf x).key = (pieceOf y).key ↔ SamePart x y := by
  cases hx with
  | run hc hrest =>
    cases hy with
    | run hd hrest' =>
      rw [pieceOf_run hc, pieceOf_run hd]
      simp only [Piece.key, Piece.weight, Piece.caseRank, Prod.mk.injEq, true_and, and_true, SamePart,
        List.all_cons, hc, hd, hrest, hrest', Bool.and_self]
      exact ⟨.inr, fun h => h.elim (congrArg saturatedValue) id⟩
    | char hd =>
      rw [pieceOf_run hc, pieceOf_char hd]
      exact iff_of_false (key_run_ne_char hd) (not_samePart_run_char hc hd)
  | char hc =>
    rw [pieceOf_char hc]
    cases hy with
    | run hd hrest =>
      rw [pieceOf_run hd, samePart_comm]
      exact iff_of_false (key_run_ne_char hc).symm (not_samePart_run_char hd hc)
    | char hd =>
      rw [pieceOf_char hd, key_char_inj, SamePart]
      simp [hc]

/-! ### Labels -/

instance : LawfulEqCmp compareWeights where
  eq_of_compare {a b} h := by
    obtain ⟨hfst, hsnd⟩ := Ordering.then_eq_eq.1 h
    exact Prod.ext (Nat.compare_eq_eq.1 hfst) (Nat.compare_eq_eq.1 hsnd)

/-- Labels are compared as equal where the keys of their pieces are. -/
theorem compare_eq_eq (a b : List Char) :
    compare a b = .eq ↔ (pieces a).map Piece.key = (pieces b).map Piece.key := by
  have hkeys : ∀ label, (pieces label).map Piece.key = (weights label).zip (caseRanks label) :=
    fun _ => List.zip_map'.symm
  rw [compare_eq, Ordering.then_eq_eq, LawfulEqCmp.compare_eq_iff_eq, LawfulEqCmp.compare_eq_iff_eq]
  constructor
  · rintro ⟨hweights, hcases⟩
    rw [hkeys, hkeys, hweights, hcases]
  · intro h
    have hweights := congrArg (List.map Prod.fst) h
    have hcases := congrArg (List.map Prod.snd) h
    rw [List.map_map, List.map_map] at hweights hcases
    exact ⟨hweights, hcases⟩

/-- **The order of labels is a total preorder**, and labels stand in the same place if they are made of the
same characters and of runs of the same values. -/
theorem compare_preorder (a b c : List Char) :
    compare a a = .eq ∧ compare b a = (compare a b).swap ∧
      ((compare a b).isLE = true → (compare b c).isLE = true → (compare a c).isLE = true) ∧
      (compare a b = .eq ↔ List.Forall₂ SamePart (parts a) (parts b)) := by
  refine ⟨ReflCmp.compare_self, OrientedCmp.eq_swap, TransCmp.isLE_trans, ?_⟩
  rw [compare_eq_eq, pieces_eq, pieces_eq, List.map_map, List.map_map, ← List.forall₂_eq_eq_eq,
    List.forall₂_map_left_iff, List.forall₂_map_right_iff, List.forall₂_iff_zip, List.forall₂_iff_zip]
  refine and_congr_right fun _ => forall_congr' fun x => forall_congr' fun y => forall_congr' fun h => ?_
  exact key_pieceOf_eq (isPart_of_mem a x (List.of_mem_zip h).1) (isPart_of_mem b y (List.of_mem_zip h).2)

/-- Leading zeros and digits behind the largest value do not count, the case of a letter does. -/
example : compare "a007".toList "a7".toList = .eq ∧
    compare "18446744073709551616".toList "99999999999999999999".toList = .eq ∧
    compare "A7".toList "a7".toList = .gt := by decide +kernel

end Typeahead.Collation
