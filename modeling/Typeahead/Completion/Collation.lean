/-
# The order of labels

Labels are compared piece by piece, a piece being a run of digits or another
character. Runs are compared by value and characters without regard to the case of
ASCII letters; of two labels that agree so far the shorter comes first, and if they
agree throughout, lower case comes before upper case where they first differ.

Key definitions: `Collation.Piece`, `Collation.pieces`, `Collation.compare`.
-/
namespace Typeahead.Collation

/-- A piece of a label. A run of digits is known by its first digit and its value. -/
inductive Piece where
  | char (c : Char)
  | run (first : Char) (value : Nat)
  deriving DecidableEq, Repr, Inhabited

/-- The largest value of a run; longer runs count as this. -/
def runLimit : Nat := 0xffffffffffffffff

/-- The value of a run of digits. -/
def runValue (digits : List Char) : Nat :=
  min (digits.foldl (fun value d => 10 * value + (d.toNat - 48)) 0) runLimit

/-- The pieces of a label. -/
def pieces : List Char → List Piece
  | [] => []
  | c :: rest =>
    if c.isDigit then
      .run c (runValue (c :: rest.takeWhile Char.isDigit)) :: pieces (rest.dropWhile Char.isDigit)
    else .char c :: pieces rest
termination_by label => label.length
decreasing_by
  · have := (List.dropWhile_sublist (l := rest) Char.isDigit).length_le
    simp only [List.length_cons]
    omega
  · simp

/-- The order of two pieces. A run and another character differ in their first
characters. -/
def comparePieces : Piece → Piece → Ordering
  | .run _ a, .run _ b => Ord.compare a b
  | .run a _, .char b => Ord.compare a.toNat b.toLower.toNat
  | .char a, .run b _ => Ord.compare a.toLower.toNat b.toNat
  | .char a, .char b => Ord.compare a.toLower.toNat b.toLower.toNat

/-- The order of two labels by their pieces, the shorter first. -/
def compareAll : List Piece → List Piece → Ordering
  | [], [] => .eq
  | [], _ :: _ => .lt
  | _ :: _, [] => .gt
  | a :: as, b :: bs => (comparePieces a b).then (compareAll as bs)

/-- The order of two labels by the first letters that differ in case. -/
def compareCase : List Piece → List Piece → Ordering
  | .char a :: as, .char b :: bs =>
    if a.isLower && b.isUpper then .lt
    else if a.isUpper && b.isLower then .gt
    else compareCase as bs
  | _ :: as, _ :: bs => compareCase as bs
  | _, _ => .eq

/-- The order of two labels. -/
def compare (a b : List Char) : Ordering :=
  (compareAll (pieces a) (pieces b)).then (compareCase (pieces a) (pieces b))

end Typeahead.Collation
