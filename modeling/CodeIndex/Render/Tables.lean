import CodeIndex.Query.Tables
import CodeIndex.Render.Declaration

/-!
# Tables as text

The page of a table with its grid of columns, and the answers to schema queries.
-/

namespace CodeIndex.Render

/-- What the last cell of a column's row holds. -/
def columnExtra (c : Column) : String :=
  joinWith "; " ((if c.autoIncrement then ["auto_increment"] else []) ++ c.comment.toList)

/-- The row of a column. -/
def columnRow (c : Column) : String :=
  "| " ++ c.name ++ " | " ++ c.type ++ " | " ++ (if c.nullable then "YES" else "NO") ++ " | " ++
    c.default.getD "" ++ " | " ++ columnExtra c ++ " |"

/-- The line of a key. -/
def keyLine (k : Key) : String :=
  item (k.name ++ " (" ++ k.kind.word ++ "): " ++ joinWith ", " k.columns)

/-- Engine and character set, as far as they are known. -/
def tableOptions (t : Table) : List String :=
  (t.engine.map ("Engine: " ++ ·)).toList ++ (t.charset.map ("Charset: " ++ ·)).toList

/-- The head of the grid of columns. -/
def gridHead : String := "\n| Column | Type | Null | Default | Extra |\n|---|---|---|---|---|\n"

/-- The page of a table. -/
def table (t : Table) : String :=
  let options := tableOptions t
  trimmedEnd (
    line ("## Table " ++ t.qualifiedName ++ " (" ++ t.shortName ++ ")") ++
    (if options.isEmpty then "" else line (joinWith ", " options)) ++
    optionally t.comment line ++
    gridHead ++ concat (t.columns.map fun c => line (columnRow c)) ++
    (if t.keys.isEmpty then ""
      else "\nIndexes:\n" ++ concat (t.keys.map fun k => line (keyLine k))))

/-- Every table on a line. -/
def tableList (tables : List Table) : String :=
  trimmedEnd (
    line (toString tables.length ++ " tables:") ++
    concat (tables.map fun t =>
      line (item (t.shortName ++ " (" ++ toString t.columns.length ++ " columns)"))))

/-- The answer when several tables match. -/
def ambiguousTables (tables : List Table) : String :=
  line (toString tables.length ++ " tables match:") ++
    concat (tables.map fun t => line (item t.shortName)) ++ "Ask for one by its exact name."

/-- The answer to a schema query; a list of all tables is shown in short. -/
def schema (outcome : SchemaOutcome) (listAll : Bool) : String :=
  match outcome with
  | .table t => table t
  | .tables ts => if listAll then tableList ts else joinWith "\n\n" (ts.map table)
  | .ambiguous ts => ambiguousTables ts
  | .notFound query suggestions =>
    "No table matches '" ++ query ++ "'." ++
      (if suggestions.isEmpty then "" else "\nDid you mean: " ++ joinWith ", " suggestions)

end CodeIndex.Render
