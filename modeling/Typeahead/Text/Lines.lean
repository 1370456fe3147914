/-
# Lines of a text

An editor names a place by line and column, the rest of the library by offset.
A line ends at a line feed, a carriage return, or the two together; every text
has at least one line, and one that ends in a terminator has an empty last line.
A column counts UTF-16 units from the start of its line and never goes past the
line's end, so the offset between the two characters of one terminator belongs
to the end of the line before it.

Key definitions: `Line`, `LineMap.ofText`, `LineMap.position`, `LineMap.offset?`.
-/
import Typeahead.Text.Units

namespace Typeahead

open Text

/-- A place named by line and column, both counted from zero. -/
structure Position where
  line : Nat
  column : Nat
  deriving DecidableEq, Repr, Inhabited

/-- One line: the offset it starts at and its length without its terminator. -/
structure Line where
  start : Nat
  length : Nat
  deriving DecidableEq, Repr, Inhabited

/-- The lines of `text`, the first of which starts at `start` and has `length`
units already. -/
def linesFrom (start length : Nat) : List Char → List Line
  | [] => [⟨start, length⟩]
  | '\r' :: '\n' :: text => ⟨start, length⟩ :: linesFrom (start + length + 2) 0 text
  | c :: text =>
    if c = '\n' ∨ c = '\r' then ⟨start, length⟩ :: linesFrom (start + length + 1) 0 text
    else linesFrom start (length + unitWidth c) text

/-- The lines of a text and its length in units. -/
structure LineMap where
  lines : Array Line
  length : Nat
  deriving Repr, Inhabited

namespace LineMap

/-- The line map of a text. -/
def ofText (text : List Char) : LineMap := ⟨(linesFrom 0 0 text).toArray, unitLength text⟩

/-- The number of lines. -/
def count (m : LineMap) : Nat := m.lines.size

/-- The offset a line starts at. -/
def start? (m : LineMap) (line : Nat) : Option Nat := m.lines[line]?.map (·.start)

/-- The last line of `lines` that starts at or before `offset`, counted on from
`index`; `current` when none does. -/
def lastStarting (offset : Nat) (current : Nat × Line) : List Line → Nat → Nat × Line
  | [], _ => current
  | line :: lines, index =>
    if line.start ≤ offset then lastStarting offset (index, line) lines (index + 1) else current

/-- The place of an offset. An offset past the end is the end of the text, and a
column past the end of its line is the end of the line. -/
def position (m : LineMap) (offset : Nat) : Position :=
  let offset := min offset m.length
  let (index, line) := lastStarting offset (0, ⟨0, 0⟩) m.lines.toList 0
  ⟨index, min (offset - line.start) line.length⟩

/-- The offset of a place; a column past the end of the line is the end of the
line, and a line past the end of the text has no offset. -/
def offset? (m : LineMap) (p : Position) : Option Nat :=
  m.lines[p.line]?.map fun line => line.start + min p.column line.length

end LineMap
end Typeahead
