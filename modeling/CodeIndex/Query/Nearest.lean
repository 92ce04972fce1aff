import CodeIndex.Text.Distance
import CodeIndex.Text.Lower

/-!
# Nearest names

Labels ranked by the edit distance between a query and a key of theirs: nearest first,
labels of one distance in alphabetical order.
-/

namespace CodeIndex

/-- The order of scored labels: by distance, then by label. -/
def scoreLe (a b : Nat × String) : Bool :=
  a.1 < b.1 || (a.1 == b.1 && !decide (b.2 < a.2))

/-- Drop the items whose label equals that of the item kept before them. -/
def dropAfter (label : String) : List (Nat × String) → List (Nat × String)
  | [] => []
  | item :: rest =>
    if item.2 = label then dropAfter label rest else item :: dropAfter item.2 rest

/-- Keep the first of neighbours with one label. -/
def dropRepeats : List (Nat × String) → List (Nat × String)
  | [] => []
  | item :: rest => item :: dropAfter item.2 rest

/-- The labels with their distances from the query, those within reach, in order. -/
def scored (query : String) (reach : Nat) (entries : List (String × String)) :
    List (Nat × String) :=
  ((entries.map fun (key, label) =>
      (Text.distance query.toList (lowered key).toList, label)).filter
    fun s => s.1 ≤ reach).mergeSort scoreLe

/-- The nearest labels, at most `count` of them.  An entry is a key and its label. -/
def nearest (query : String) (reach count : Nat) (entries : List (String × String)) :
    List String :=
  ((dropRepeats (scored query reach entries)).take count).map Prod.snd

end CodeIndex
