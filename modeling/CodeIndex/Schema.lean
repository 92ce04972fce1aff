import CodeIndex.Dict
import CodeIndex.Text.Slice

/-!
# Tables

The record of one `CREATE TABLE` statement, and the index of tables by short name.
A short name is the written name without the placeholder that stands in front of it.

* `Table.primaryKey?_eq_some_iff`, `Table.column?_eq_some_iff` : the first key of its kind and the
  first column of a name.
* `ofTables_tables` : building the index keeps every table in its order.
-/

namespace CodeIndex

/-- The placeholder in front of table names of installation scripts. -/
def defaultTablePrefix : String := "#__"

/-- Remove every leading copy of the placeholder; an empty placeholder removes nothing. -/
def stripTablePrefix (name placeholder : String) : String :=
  String.ofList (Text.stripAll placeholder.toList name.toList)

/-- A column of a table. -/
structure Column where
  name : String
  type : String
  nullable : Bool := true
  default : Option String := none
  autoIncrement : Bool := false
  comment : Option String := none
  deriving DecidableEq, Repr, Inhabited

/-- The four kinds of key. -/
inductive KeyKind where
  | primary
  | unique
  | index
  | fulltext
  deriving DecidableEq, Repr, Inhabited

/-- The word for a kind of key in records and answers. -/
def KeyKind.word : KeyKind → String
  | .primary => "primary"
  | .unique => "unique"
  | .index => "index"
  | .fulltext => "fulltext"

/-- A key of a table and the columns it covers. -/
structure Key where
  name : String
  kind : KeyKind
  columns : List String := []
  deriving DecidableEq, Repr, Inhabited

/-- A table as its statement defines it. -/
structure Table where
  qualifiedName : String
  shortName : String
  columns : List Column := []
  keys : List Key := []
  engine : Option String := none
  charset : Option String := none
  comment : Option String := none
  deriving DecidableEq, Repr, Inhabited

namespace Table

/-- The first primary key. -/
def primaryKey? (t : Table) : Option Key := t.keys.find? fun k => k.kind == .primary

/-- The first column of that name, in any ASCII letter case. -/
def column? (t : Table) (name : String) : Option Column :=
  t.columns.find? fun c => sameName c.name name

variable {t : Table}

/-- The primary key is of that kind, and no key in front of it is. -/
theorem primaryKey?_eq_some_iff {key : Key} : t.primaryKey? = some key ↔ key.kind = .primary ∧
    ∃ front behind, t.keys = front ++ key :: behind ∧ ∀ other ∈ front, other.kind ≠ .primary := by
  simp [primaryKey?, List.find?_eq_some_iff_append]

/-- The column of a name has that name, and no column in front of it does. -/
theorem column?_eq_some_iff {name : String} {column : Column} : t.column? name = some column ↔
    sameName column.name name = true ∧ ∃ front behind, t.columns = front ++ column :: behind ∧
      ∀ other ∈ front, sameName other.name name = false := by
  simp [column?, List.find?_eq_some_iff_append]

end Table

/-- Every table in order, and the last table of each short name. -/
structure SchemaIndex where
  tables : List Table
  byShortName : Dict Table
  deriving DecidableEq, Inhabited

namespace SchemaIndex

/-- The index without tables. -/
def empty : SchemaIndex := ⟨[], Dict.empty⟩

/-- Index tables by short name; a later table replaces an earlier one of its name. -/
def ofTables (tables : List Table) : SchemaIndex :=
  ⟨tables, Dict.ofList (tables.map fun t => (t.shortName, t))⟩

/-- Building the index keeps every table in its order. -/
theorem ofTables_tables (tables : List Table) : (ofTables tables).tables = tables := rfl

end SchemaIndex

end CodeIndex
