import CodeIndex.Query.Lookup
import CodeIndex.Schema

/-!
# Looking up tables

A table is asked for by its name, with or without the placeholder; the tables of a
component by the component's name; or all tables are listed.
-/

namespace CodeIndex

/-- What is asked of a schema. -/
inductive SchemaQuery where
  | table (name : String)
  | component (name : String)
  | all
  deriving DecidableEq, Repr, Inhabited

/-- What a schema query gives. -/
inductive SchemaOutcome where
  | table (table : Table)
  | tables (tables : List Table)
  | ambiguous (tables : List Table)
  | notFound (query : String) (suggestions : List String)
  deriving DecidableEq, Repr, Inhabited

namespace Query

/-- The short names near a query that matches nothing. -/
def similarTables (settings : QuerySettings) (schema : SchemaIndex) (needle : String) :
    List String :=
  ((scored needle settings.maxEditDistance
    (schema.byShortName.keys.map fun short => (short, short))).take
      settings.maxSuggestions).map Prod.snd

/-- Does the needle occur in the short or the qualified name of a table? -/
def isPartialTable (needle : String) (t : Table) : Bool :=
  holds needle t.shortName || holds needle t.qualifiedName

/-- Look up a table by name. -/
def lookupTable (config : Config) (schema : SchemaIndex) (name : String) : SchemaOutcome :=
  let short := stripTablePrefix (trimmed name) config.schema.tablePrefix
  match schema.byShortName.get? short with
  | some table => .table table
  | none =>
    let needle := lowered short
    match schema.byShortName.values.filter (isPartialTable needle) with
    | [] => .notFound name (similarTables config.query schema needle)
    | [table] => .table table
    | found => .ambiguous found

/-- The short name that a component's tables have or start with. -/
def componentStem (config : Config) (component : String) : List Char :=
  let name := (lowered (trimmed component)).toList
  (Text.stripStart? (lowered config.schema.componentPrefix).toList name).getD name

/-- Does a table belong to the component of that stem? -/
def isComponentTable (stem : List Char) (t : Table) : Bool :=
  let short := (lowered t.shortName).toList
  short == stem || Text.startsWith (stem ++ ['_']) short

/-- The tables of a component. -/
def lookupComponent (config : Config) (schema : SchemaIndex) (component : String) :
    SchemaOutcome :=
  match schema.byShortName.values.filter (isComponentTable (componentStem config component)) with
  | [] => .notFound component []
  | found => .tables found

/-- Answer a schema query. -/
def lookupSchema (config : Config) (schema : SchemaIndex) : SchemaQuery → SchemaOutcome
  | .table name => lookupTable config schema name
  | .component name => lookupComponent config schema name
  | .all => .tables schema.tables

end Query

end CodeIndex
