/-!
# Classes of characters given by ranges

A class is a list of closed ranges of code points.
-/

namespace CodeIndex.Text

/-- Does some range of the list hold `n`? -/
def inRanges (n : Nat) : List (Nat × Nat) → Bool
  | [] => false
  | (lo, hi) :: rest => (lo ≤ n && n ≤ hi) || inRanges n rest

end CodeIndex.Text
