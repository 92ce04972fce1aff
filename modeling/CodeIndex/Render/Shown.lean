import CodeIndex.Path

/-!
# What may be shown

Paths are shown relative to the source root and never as absolute paths of the machine;
texts are cut to a budget of characters at the end of a line.

* `truncate_of_le` : a text within its budget is shown whole.
-/

namespace CodeIndex.Render

open Text

/-- A source path as it may be shown: relative to the root, or only its file name. -/
def shownPath (path root : String) : String :=
  match Path.relativeTo? path root with
  | some relative => String.ofList (replaceChar '\\' '/' relative.toList)
  | none => (Path.fileName? path).getD "<unknown>"

/-- The part of a text that a budget keeps: the whole lines among its first characters, or
those characters if they end no line. -/
def kept (budget : Nat) (cs : List Char) : List Char :=
  let head := cs.take budget
  match splitLast? '\n' head with
  | some (before, _) => before
  | none => head

/-- The notice under a text that was cut. -/
def truncationNotice (shown total : Nat) : String :=
  "\n\n[Output truncated: showing " ++ toString shown ++ " of " ++ toString total ++
    " characters. Narrow the query to see more.]"

/-- Cut a text to a budget of characters, with a notice; a text within it stays. -/
def truncate (text : String) (budget : Nat) : String :=
  let cs := text.toList
  if cs.length ≤ budget then text
  else
    let part := kept budget cs
    String.ofList (trimEnd part) ++ truncationNotice part.length cs.length

/-- A text within its budget is shown whole. -/
theorem truncate_of_le {text : String} {budget : Nat} (h : text.toList.length ≤ budget) :
    truncate text budget = text := by
  simp only [truncate]
  rw [if_pos h]

end CodeIndex.Render
