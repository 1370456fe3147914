/-
# Offsets in units and in bytes

Both measures cut a text between two characters. A cut by units takes the shortest start of the text
that reaches the offset, a cut by bytes the longest start that fits in the size. So whether the one lies
within the other can be asked in bytes or in units, and that is the law of the two conversions: up to the
end of the text, the position of an offset comes no later than a byte position exactly when the offset
comes no later than the offset of that position.

Key definitions: `Boundary`.
Key theorems: `takeUnits_prefix_iff`, `prefix_takeBytes_iff`, `byteOfUnit_le_iff`, `byteOfUnit_galois`.
-/
import Mathlib.Data.Nat.Basic
import Mathlib.Order.Bounds.Defs
import Mathlib.Order.Monotone.Defs
import Typeahead.Text.Units

namespace Typeahead.Text

/-- A byte position at which the UTF-8 of a text can be cut: at the start of a character or at the end of
the text. -/
def Boundary (text : List Char) (b : Nat) : Prop := String.Pos.Raw.IsValid (String.ofList text) ⟨b⟩

variable {text front : List Char}

/-! ### Bytes and boundaries -/

theorem byteWidth_pos (c : Char) : 0 < byteWidth c := c.utf8Size_pos

theorem utf8ByteSize_ofList : ∀ text : List Char, (String.ofList text).utf8ByteSize = byteLength text
  | [] => rfl
  | c :: text => by
    rw [String.ofList_cons, String.utf8ByteSize_append, String.utf8ByteSize_singleton, utf8ByteSize_ofList text]
    rfl

/-- The boundaries of a text are where its starts end. -/
theorem boundary_iff {b : Nat} : Boundary text b ↔ ∃ front, front <+: text ∧ byteLength front = b := by
  simp only [Boundary, String.Pos.Raw.isValid_ofList, utf8ByteSize_ofList]
  constructor
  · rintro ⟨i, rfl⟩
    exact ⟨text.take i, text.take_prefix i, rfl⟩
  · rintro ⟨front, h, rfl⟩
    exact ⟨front.length, by rw [← List.prefix_iff_eq_take.1 h]⟩

theorem boundary_byteLength (h : front <+: text) : Boundary text (byteLength front) :=
  boundary_iff.2 ⟨front, h, rfl⟩

theorem unitLength_le_of_isPrefix (h : front <+: text) : unitLength front ≤ unitLength text := by
  obtain ⟨behind, rfl⟩ := h
  rw [unitLength_append]
  exact Nat.le_add_right ..

theorem byteLength_le_of_isPrefix (h : front <+: text) : byteLength front ≤ byteLength text := by
  obtain ⟨behind, rfl⟩ := h
  rw [byteLength_append]
  exact Nat.le_add_right ..

/-! ### The two cuts -/

theorem takeUnits_isPrefix (offset : Nat) (text : List Char) : takeUnits offset text <+: text :=
  ⟨_, takeUnits_append_dropUnits offset text⟩

theorem takeBytes_isPrefix (size : Nat) (text : List Char) : takeBytes size text <+: text :=
  ⟨_, takeBytes_append_dropBytes size text⟩

/-- **A cut by units is the shortest start that reaches the offset**, or all of the text. -/
theorem takeUnits_prefix_iff {offset : Nat} (h : front <+: text) :
    takeUnits offset text <+: front ↔ offset ≤ unitLength front ∨ front = text := by
  induction text generalizing offset front with
  | nil => simp [takeUnits, List.prefix_nil.1 h]
  | cons c text ih =>
    by_cases hzero : offset = 0
    · simp [takeUnits, hzero]
    · rw [takeUnits, if_neg hzero]
      cases front with
      | nil => simp [unitLength, hzero]
      | cons d front =>
        -- an offset inside the first character is zero behind it, where the cut stops: it was taken whole
        obtain ⟨rfl, hfront⟩ := List.cons_prefix_cons.1 h
        rw [List.cons_prefix_cons, ih hfront, unitLength, Nat.sub_le_iff_le_add']
        simp

/-- **A cut by bytes is the longest start that fits in the size.** -/
theorem prefix_takeBytes_iff {size : Nat} (h : front <+: text) :
    front <+: takeBytes size text ↔ byteLength front ≤ size := by
  induction text generalizing size front with
  | nil => simp [takeBytes, List.prefix_nil.1 h, byteLength]
  | cons c text ih =>
    cases front with
    | nil => simp [byteLength]
    | cons d front =>
      obtain ⟨rfl, hfront⟩ := List.cons_prefix_cons.1 h
      by_cases hfits : byteWidth d ≤ size
      · rw [takeBytes, if_pos hfits, List.cons_prefix_cons, ih hfront, byteLength]
        simp only [true_and]
        omega
      · -- the first character does not fit, so no start but the empty one does
        rw [takeBytes, if_neg hfits, List.prefix_nil, byteLength]
        simp only [reduceCtorEq, false_iff]
        omega

theorem byteLength_takeBytes_le (size : Nat) (text : List Char) : byteLength (takeBytes size text) ≤ size :=
  (prefix_takeBytes_iff (takeBytes_isPrefix size text)).1 (List.prefix_refl _)

theorem takeBytes_eq_self_iff {size : Nat} : takeBytes size text = text ↔ byteLength text ≤ size := by
  rw [← prefix_takeBytes_iff (List.prefix_refl text)]
  constructor
  · intro h
    simp only [h, List.prefix_rfl]
  · exact fun h => (takeBytes_isPrefix size text).eq_of_length_le h.length_le

/-- A cut at the end of a start leaves what stands behind it. -/
theorem takeBytes_byteLength_append : ∀ a b : List Char, takeBytes (byteLength a) (a ++ b) = a
  | [], [] => rfl
  | [], c :: b => if_neg (Nat.not_le.2 (byteWidth_pos c))
  | c :: a, b => by
    rw [List.cons_append, takeBytes, byteLength, if_pos (Nat.le_add_right ..), Nat.add_sub_cancel_left,
      takeBytes_byteLength_append a b]

theorem takeBytes_byteLength (h : front <+: text) : takeBytes (byteLength front) text = front := by
  obtain ⟨behind, rfl⟩ := h
  exact takeBytes_byteLength_append front behind

/-! ### The two conversions -/

theorem byteOfUnit_unitLength (h : front <+: text) : byteOfUnit text (unitLength front) = byteLength front := by
  obtain ⟨behind, rfl⟩ := h
  rw [byteOfUnit, takeUnits_unitLength_append]

theorem unitOfByte_byteLength (h : front <+: text) : unitOfByte text (byteLength front) = unitLength front := by
  rw [unitOfByte, takeBytes_byteLength h]

/-- The bytes before the position of an offset are those of the cut by units. -/
theorem takeBytes_byteOfUnit (text : List Char) (offset : Nat) :
    takeBytes (byteOfUnit text offset) text = takeUnits offset text :=
  takeBytes_byteLength (takeUnits_isPrefix offset text)

theorem unitOfByte_le (text : List Char) (b : Nat) : unitOfByte text b ≤ unitLength text :=
  unitLength_le_of_isPrefix (takeBytes_isPrefix b text)

theorem byteOfUnit_le (text : List Char) (offset : Nat) : byteOfUnit text offset ≤ byteLength text :=
  byteLength_le_of_isPrefix (takeUnits_isPrefix offset text)

/-- **The law of the conversions.** The position of an offset comes no later than a byte position exactly when the
offset comes no later than that of the byte position, or the byte position is at the end of the text or past it. -/
theorem byteOfUnit_le_iff (text : List Char) (offset b : Nat) :
    byteOfUnit text offset ≤ b ↔ offset ≤ unitOfByte text b ∨ byteLength text ≤ b :=
  calc byteOfUnit text offset ≤ b
    _ ↔ takeUnits offset text <+: takeBytes b text := (prefix_takeBytes_iff (takeUnits_isPrefix offset text)).symm
    _ ↔ offset ≤ unitOfByte text b ∨ takeBytes b text = text := takeUnits_prefix_iff (takeBytes_isPrefix b text)
    _ ↔ offset ≤ unitOfByte text b ∨ byteLength text ≤ b := or_congr_right takeBytes_eq_self_iff

/-- Up to the end of the text, the position of an offset reaches it. -/
theorem le_unitOfByte_byteOfUnit {offset : Nat} (h : offset ≤ unitLength text) :
    offset ≤ unitOfByte text (byteOfUnit text offset) := by
  rcases (byteOfUnit_le_iff text offset _).1 (Nat.le_refl _) with hreach | hend
  · exact hreach
  · -- at the end of the text all its units are counted
    rwa [Nat.le_antisymm (byteOfUnit_le text offset) hend, unitOfByte_byteLength (List.prefix_refl text)]

theorem byteOfUnit_mono (text : List Char) : Monotone (byteOfUnit text) := by
  intro offset later h
  rw [byteOfUnit_le_iff]
  exact ((byteOfUnit_le_iff text later _).1 (Nat.le_refl _)).imp_left (Nat.le_trans h)

/-- The position of an offset past the end of the text is the end. -/
theorem byteOfUnit_of_lt {offset : Nat} (h : unitLength text < offset) : byteOfUnit text offset = byteLength text := by
  refine Nat.le_antisymm (byteOfUnit_le text offset) ?_
  rw [← byteOfUnit_unitLength (List.prefix_refl text)]
  exact byteOfUnit_mono text (Nat.le_of_lt h)

/-- **Units and bytes name the same points of a text.** The two conversions are a Galois pair up to the end of the text.
The position of an offset is a boundary, before which stands the cut by units: the first boundary that reaches the
offset, or the end for an offset past it, which none reaches. A later offset has no earlier position. The offset of a
byte position counts the units of the longest start of the text that ends at a boundary no later than it. And every
boundary is the position of its own offset. -/
theorem byteOfUnit_galois (text : List Char) :
    (∀ offset b, byteOfUnit text offset ≤ b ↔ offset ≤ unitOfByte text b ∨ byteLength text ≤ b) ∧
      (∀ offset, Boundary text (byteOfUnit text offset) ∧
        takeBytes (byteOfUnit text offset) text = takeUnits offset text ∧
        (offset ≤ unitLength text →
          IsLeast {b | Boundary text b ∧ offset ≤ unitOfByte text b} (byteOfUnit text offset)) ∧
        (unitLength text < offset →
          (∀ b, ¬ offset ≤ unitOfByte text b) ∧ byteOfUnit text offset = byteLength text)) ∧
      Monotone (byteOfUnit text) ∧
      (∀ b, ∃ front, front <+: text ∧ IsGreatest {c | Boundary text c ∧ c ≤ b} (byteLength front) ∧
        unitOfByte text b = unitLength front) ∧
      ∀ b, Boundary text b → byteOfUnit text (unitOfByte text b) = b := by
  refine ⟨byteOfUnit_le_iff text, fun offset => ⟨?boundary, takeBytes_byteOfUnit text offset, ?least, ?none⟩,
    byteOfUnit_mono text, fun b => ?longest, fun b hb => ?back⟩
  case boundary => exact boundary_byteLength (takeUnits_isPrefix offset text)
  case least =>
    intro h
    refine ⟨⟨boundary_byteLength (takeUnits_isPrefix offset text), le_unitOfByte_byteOfUnit h⟩, ?_⟩
    rintro b ⟨-, hreach⟩
    exact (byteOfUnit_le_iff text offset b).2 (.inl hreach)
  case none =>
    intro h
    exact ⟨fun b hreach => absurd (unitOfByte_le text b) (by omega), byteOfUnit_of_lt h⟩
  case longest =>
    refine ⟨takeBytes b text, takeBytes_isPrefix b text,
      ⟨⟨boundary_byteLength (takeBytes_isPrefix b text), byteLength_takeBytes_le b text⟩, ?_⟩, rfl⟩
    rintro c ⟨hc, hle⟩
    obtain ⟨front, hfront, rfl⟩ := boundary_iff.1 hc
    exact byteLength_le_of_isPrefix ((prefix_takeBytes_iff hfront).2 hle)
  case back =>
    obtain ⟨front, hfront, rfl⟩ := boundary_iff.1 hb
    rw [unitOfByte_byteLength hfront, byteOfUnit_unitLength hfront]

/-- In a text with a character of two bytes and one of four: the offset between the two units of the second goes to its
end, the offset past the end to the end, and the boundary behind the first comes back. -/
theorem byteOfUnit_galois_pairs :
    let text := ['é', '😀', 'a']
    (2 ≤ unitLength text ∧ IsLeast {b | Boundary text b ∧ 2 ≤ unitOfByte text b} 6) ∧
      (unitLength text < 9 ∧ byteOfUnit text 9 = 7) ∧
      (Boundary text 2 ∧ byteOfUnit text (unitOfByte text 2) = 2) := by
  intro text
  obtain ⟨-, hoffset, -, -, hback⟩ := byteOfUnit_galois text
  have hfront : ['é'] <+: text := ⟨['😀', 'a'], rfl⟩
  have hsecond : Boundary text 2 := boundary_byteLength hfront
  exact ⟨⟨by decide, (hoffset 2).2.2.1 (by decide)⟩, ⟨by decide, ((hoffset 9).2.2.2 (by decide)).2⟩,
    ⟨hsecond, hback 2 hsecond⟩⟩

end Typeahead.Text
