/-!
# Edit distance

The least number of insertions, deletions and replacements of single characters
that turn one text into another, computed row by row.
-/

namespace CodeIndex.Text

/-- The next row of the table: `diag` is the entry up and to the left, `left` the entry
just written, and the list holds the rest of the row above with its characters. -/
def distanceRow (a : Char) (diag left : Nat) : List Char → List Nat → List Nat
  | b :: bs, up :: ups =>
    let cost := if a = b then diag else diag + 1
    let entry := min cost (min (up + 1) (left + 1))
    entry :: distanceRow a up entry bs ups
  | _, _ => []

/-- The last row of the table after reading all of the first text. -/
def distanceRows (target : List Char) : Nat → List Nat → List Char → List Nat
  | _, row, [] => row
  | i, row, a :: rest =>
    match row with
    | [] => []
    | first :: ups =>
      distanceRows target (i + 1) ((i + 1) :: distanceRow a first (i + 1) target ups) rest

/-- The edit distance of two texts, counted in characters. -/
def distance (source target : List Char) : Nat :=
  ((distanceRows target 0 (List.range (target.length + 1)) source).getLast?).getD 0

end CodeIndex.Text
