import CodeIndex.Path
import CodeIndex.Schema

/-!
# Configuration

The settings of a project, their defaults, which values are accepted, and which files the
patterns admit.

* `fault?_default` : the defaults are accepted.
-/

namespace CodeIndex

/-- Where a project's trees are. -/
structure ProjectSettings where
  name : String := "unnamed-project"
  sourceRoot : String := "."
  schemaRoot : String := "installation/sql/mysql"
  deriving DecidableEq, Repr, Inhabited

/-- Provenance that is told rather than read from the checkout. -/
structure SourceSettings where
  commit : Option String := none
  branch : Option String := none
  deriving DecidableEq, Repr, Inhabited

/-- Which files are indexed, and how. -/
structure IndexingSettings where
  excluded : List String := ["node_modules/", ".git/", ".phpindex/", "**/tests/**"]
  included : List String := []
  extensions : List String := ["php"]
  schemaExtensions : List String := ["sql"]
  schemaRecursive : Bool := false
  batchSize : Nat := 100
  concurrent : Bool := false
  deriving DecidableEq, Repr, Inhabited

/-- How much a query gives back. -/
structure QuerySettings where
  defaultLimit : Nat := 10
  maxAmbiguous : Nat := 10
  maxSuggestions : Nat := 5
  maxEditDistance : Nat := 3
  deriving DecidableEq, Repr, Inhabited

/-- What stands in front of names of tables and of components. -/
structure SchemaSettings where
  tablePrefix : String := defaultTablePrefix
  componentPrefix : String := "com_"
  deriving DecidableEq, Repr, Inhabited

/-- The size of an answer. -/
structure OutputSettings where
  maxChars : Nat := 24000
  deriving DecidableEq, Repr, Inhabited

/-- Where the built indexes are kept. -/
structure StorageSettings where
  indexFile : String := ".phpindex/index.json"
  schemaFile : String := ".phpindex/schema.json"
  deriving DecidableEq, Repr, Inhabited

/-- What is logged. -/
structure LoggingSettings where
  level : String := "info"
  format : String := "compact"
  deriving DecidableEq, Repr, Inhabited

/-- The settings of a project. -/
structure Config where
  project : ProjectSettings := {}
  source : SourceSettings := {}
  indexing : IndexingSettings := {}
  query : QuerySettings := {}
  schema : SchemaSettings := {}
  output : OutputSettings := {}
  storage : StorageSettings := {}
  logging : LoggingSettings := {}
  deriving DecidableEq, Repr, Inhabited

/-- Why a configuration is not accepted. -/
inductive ConfigFault where
  | emptyName
  | emptySourceRoot
  | emptySchemaRoot
  | noExtension
  | noSchemaExtension
  | zeroBatchSize
  | zeroLimit
  | zeroAmbiguous
  | zeroBudget
  | emptyStoragePath
  | unknownLevel (level : String)
  | unknownFormat (format : String)
  deriving DecidableEq, Repr, Inhabited

/-- The wording of a fault. -/
def ConfigFault.message : ConfigFault → String
  | .emptyName => "Project name cannot be empty"
  | .emptySourceRoot => "Source root cannot be empty"
  | .emptySchemaRoot => "Schema root cannot be empty"
  | .noExtension => "At least one source extension is required"
  | .noSchemaExtension => "At least one schema extension is required"
  | .zeroBatchSize => "Batch size must be greater than 0"
  | .zeroLimit => "Default query limit must be greater than 0"
  | .zeroAmbiguous => "Ambiguous candidate cap must be greater than 0"
  | .zeroBudget => "Output budget must be greater than 0"
  | .emptyStoragePath => "Storage paths cannot be empty"
  | .unknownLevel level => "Invalid log level: " ++ level
  | .unknownFormat format => "Invalid log format: " ++ format

namespace Config

open Text

/-- The log levels. -/
def levels : List String := ["error", "warn", "info", "debug", "trace"]

/-- The log formats. -/
def formats : List String := ["compact", "pretty", "json"]

/-- Every fault with the condition under which it holds, in the order of report. -/
def faults (c : Config) : List (Bool × ConfigFault) := [
  (c.project.name.isEmpty, .emptyName),
  (c.project.sourceRoot.isEmpty, .emptySourceRoot),
  (c.project.schemaRoot.isEmpty, .emptySchemaRoot),
  (c.indexing.extensions.isEmpty, .noExtension),
  (c.indexing.schemaExtensions.isEmpty, .noSchemaExtension),
  (c.indexing.batchSize == 0, .zeroBatchSize),
  (c.query.defaultLimit == 0, .zeroLimit),
  (c.query.maxAmbiguous == 0, .zeroAmbiguous),
  (c.output.maxChars == 0, .zeroBudget),
  (c.storage.indexFile.isEmpty || c.storage.schemaFile.isEmpty, .emptyStoragePath),
  (!levels.contains c.logging.level, .unknownLevel c.logging.level),
  (!formats.contains c.logging.format, .unknownFormat c.logging.format)]

/-- The first fault of a configuration; none when it is accepted. -/
def fault? (c : Config) : Option ConfigFault := (c.faults.find? Prod.fst).map Prod.snd

/-- Does a path match a pattern?  A pattern with a slash at its end, or between two double
stars, names a directory; `*.x` asks for `.x`; any other text is looked for as it is. -/
def matchesPattern (path pattern : List Char) : Bool :=
  let path := replaceChar '\\' '/' path
  if endsWith ['/'] pattern then
    let dir := dropTail (· == '/') pattern
    startsWith pattern path || contains ('/' :: (dir ++ ['/'])) path
  else
    match stripStart? ['*', '.'] pattern with
    | some suffix => contains ('.' :: suffix) path
    | none =>
      match (stripStart? ['*', '*', '/'] pattern).bind (stripEnd? ['/', '*', '*']) with
      | some inner =>
        contains ('/' :: (inner ++ ['/'])) path || startsWith (inner ++ ['/']) path
      | none => contains pattern path

/-- Does the path match some pattern of the list? -/
def matchesAny (path : String) (patterns : List String) : Bool :=
  patterns.any fun pattern => matchesPattern path.toList pattern.toList

/-- Is a file indexed?  No exclude pattern may match, and some include pattern must, if
there are any. -/
def shouldIndex (c : Config) (path : String) : Bool :=
  !matchesAny path c.indexing.excluded &&
    (c.indexing.included.isEmpty || matchesAny path c.indexing.included)

/-- The root of the declaration tree. -/
def sourceRoot (c : Config) (dir : String) : String := Path.join dir c.project.sourceRoot

/-- The directory of the installation scripts. -/
def schemaRoot (c : Config) (dir : String) : String := Path.join dir c.project.schemaRoot

/-- The file that keeps the index. -/
def indexPath (c : Config) (dir : String) : String := Path.join dir c.storage.indexFile

/-- The file that keeps the schema index. -/
def schemaPath (c : Config) (dir : String) : String := Path.join dir c.storage.schemaFile

/-- The defaults are accepted. -/
theorem fault?_default : fault? {} = none := by decide +kernel

end Config

end CodeIndex
