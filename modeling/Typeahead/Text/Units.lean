/-
# Measuring text

A text is a list of characters. An offset into it counts UTF-16 code units, as
an editor does: one for a character below U+10000 and two for any other. A few
places count the bytes of UTF-8 instead. Here are both measures and the cuts
that go with them: a cut by units that falls inside a character takes the
character whole, a cut by bytes leaves it out.

Key definitions: `unitLength`, `takeUnits`, `takeBytes`, `byteOfUnit`, `unitOfByte`.
Key theorems: `takeUnits_append_dropUnits`, `takeBytes_append_dropBytes`,
`unitLength_append`, `byteLength_append`.
-/
namespace Typeahead.Text

/-- The UTF-16 code units of a character. -/
def unitWidth (c : Char) : Nat := if c.val < 0x10000 then 1 else 2

/-- The UTF-8 bytes of a character. -/
def byteWidth (c : Char) : Nat := c.utf8Size

/-- The length of a text in UTF-16 code units. -/
def unitLength : List Char → Nat
  | [] => 0
  | c :: text => unitWidth c + unitLength text

/-- The length of a text in bytes. -/
def byteLength : List Char → Nat
  | [] => 0
  | c :: text => byteWidth c + byteLength text

/-- The shortest start of the text that reaches `offset` units, or all of it:
a character that the offset cuts in two is taken whole. -/
def takeUnits : Nat → List Char → List Char
  | _, [] => []
  | offset, c :: text => if offset = 0 then [] else c :: takeUnits (offset - unitWidth c) text

/-- What `takeUnits` leaves. -/
def dropUnits : Nat → List Char → List Char
  | _, [] => []
  | offset, c :: text => if offset = 0 then c :: text else dropUnits (offset - unitWidth c) text

/-- The longest start of the text that fits in `size` bytes: a character that
the size cuts in two is left out. -/
def takeBytes : Nat → List Char → List Char
  | _, [] => []
  | size, c :: text => if byteWidth c ≤ size then c :: takeBytes (size - byteWidth c) text else []

/-- What `takeBytes` leaves. -/
def dropBytes : Nat → List Char → List Char
  | _, [] => []
  | size, c :: text => if byteWidth c ≤ size then dropBytes (size - byteWidth c) text else c :: text

/-- The byte position of a unit offset; past the end it is the end. -/
def byteOfUnit (text : List Char) (offset : Nat) : Nat := byteLength (takeUnits offset text)

/-- The unit offset of a byte position; past the end it is the end. -/
def unitOfByte (text : List Char) (size : Nat) : Nat := unitLength (takeBytes size text)

theorem unitWidth_pos (c : Char) : 0 < unitWidth c := by
  unfold unitWidth; split <;> decide

theorem unitLength_pos {text : List Char} (h : 0 < text.length) : 0 < unitLength text := by
  cases text with
  | nil => cases h
  | cons c text => exact Nat.add_pos_left (unitWidth_pos c) _

theorem unitLength_append : ∀ a b : List Char, unitLength (a ++ b) = unitLength a + unitLength b
  | [], b => by simp [unitLength]
  | c :: a, b => by simp only [List.cons_append, unitLength, unitLength_append a b]; omega

theorem byteLength_append : ∀ a b : List Char, byteLength (a ++ b) = byteLength a + byteLength b
  | [], b => by simp [byteLength]
  | c :: a, b => by simp only [List.cons_append, byteLength, byteLength_append a b]; omega

/-- Cutting by units loses nothing. -/
theorem takeUnits_append_dropUnits : ∀ (offset : Nat) (text : List Char),
    takeUnits offset text ++ dropUnits offset text = text
  | _, [] => rfl
  | offset, c :: text => by
    by_cases h : offset = 0
    · simp [takeUnits, dropUnits, h]
    · simp [takeUnits, dropUnits, h, takeUnits_append_dropUnits _ text]

/-- A cut at the end of a text leaves what stands behind it. -/
theorem takeUnits_unitLength_append : ∀ a b : List Char, takeUnits (unitLength a) (a ++ b) = a
  | [], b => by cases b <;> simp [takeUnits, unitLength]
  | c :: a, b => by
    have hpos := unitWidth_pos c
    rw [List.cons_append, takeUnits, unitLength, if_neg (by omega), Nat.add_sub_cancel_left,
      takeUnits_unitLength_append a b]

theorem takeUnits_unitLength (text : List Char) : takeUnits (unitLength text) text = text := by
  simpa using takeUnits_unitLength_append text []

/-- Cutting by bytes loses nothing. -/
theorem takeBytes_append_dropBytes : ∀ (size : Nat) (text : List Char),
    takeBytes size text ++ dropBytes size text = text
  | _, [] => rfl
  | size, c :: text => by
    by_cases h : byteWidth c ≤ size
    · simp [takeBytes, dropBytes, h, takeBytes_append_dropBytes _ text]
    · simp [takeBytes, dropBytes, h]

end Typeahead.Text
