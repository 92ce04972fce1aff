import CodeIndex.Text.Slice

/-!
# Doc blocks as text

A doc block without its delimiters and the asterisks in front of its lines, and the line
that sums it up.
-/

namespace CodeIndex.Render

open Text

/-- A line of a doc block without outer blanks, and without a leading asterisk and the
blanks after it. -/
def docLine (line : List Char) : List Char :=
  match trim line with
  | '*' :: rest => trimStart rest
  | bare => bare

/-- The text inside the delimiters of a doc block. -/
def docBody (raw : List Char) : List Char :=
  stripAllEnd ['*', '/'] (stripAll ['/', '*', '*'] (trim raw))

/-- The text of a doc block. -/
def cleanDoc (raw : String) : String :=
  String.ofList (trim (join ['\n'] ((lines (docBody raw.toList)).map docLine)))

/-- Can a line sum up a doc block?  It is not empty and starts no tag. -/
def isSummary (line : List Char) : Bool := !line.isEmpty && !startsWith ['@'] line

/-- The first line of a doc block that can sum it up. -/
def summaryLine (doc : Option String) : Option String :=
  doc.bind fun raw => ((lines (cleanDoc raw).toList).find? isSummary).map String.ofList

end CodeIndex.Render
