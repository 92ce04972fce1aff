import CodeIndex.Config
import CodeIndex.Toml.Document

/-!
# Reading a configuration

A section that is present must be complete; a section that is missing keeps its defaults.
Unknown keys are passed over.  A section may also be given as a list of its values in
order.

* `ofText_empty` : the empty text gives the defaults.
-/

namespace CodeIndex

/-- Why a configuration file gives no configuration. -/
inductive ConfigError where
  | unreadable
  | malformed
  | rejected (fault : ConfigFault)
  deriving DecidableEq, Repr, Inhabited

namespace Config

/-- The fields of a section in the order of their keys.  A point in time is a section with
none of the keys. -/
def fields (keys : List String) : Toml → Option (List (Option Toml))
  | .table _ entries => some (keys.map fun key => Toml.find? key entries)
  | .arr items => if items.length < keys.length then none else some (items.map some)
  | .tables items => if items.length < keys.length then none else some (items.map some)
  | .time => some (keys.map fun _ => none)
  | _ => none

/-- A text that must be there. -/
def text? : Option Toml → Option String
  | some (.str s) => some s
  | _ => none

/-- A text that may be missing. -/
def maybeText? : Option Toml → Option (Option String)
  | none => some none
  | some (.str s) => some (some s)
  | _ => none

/-- A truth value that must be there. -/
def flag? : Option Toml → Option Bool
  | some (.bool b) => some b
  | _ => none

/-- A natural number that must be there. -/
def count? : Option Toml → Option Nat
  | some (.int n) => n.toNat?
  | _ => none

/-- A list of texts that must be there. -/
def texts? : Option Toml → Option (List String)
  | some (.arr items) => items.mapM fun item => text? (some item)
  | _ => none

/-- Read the section on the project. -/
def project? (t : Toml) : Option ProjectSettings := do
  match ← fields ["name", "source_root", "schema_root"] t with
  | name :: sourceRoot :: schemaRoot :: _ =>
    some { name := ← text? name, sourceRoot := ← text? sourceRoot, schemaRoot := ← text? schemaRoot }
  | _ => none

/-- Read the section on provenance. -/
def source? (t : Toml) : Option SourceSettings := do
  match ← fields ["commit", "branch"] t with
  | commit :: branch :: _ => some { commit := ← maybeText? commit, branch := ← maybeText? branch }
  | _ => none

/-- Read the section on indexing. -/
def indexing? (t : Toml) : Option IndexingSettings := do
  match ← fields ["exclude", "include", "extensions", "schema_extensions", "schema_recursive",
      "batch_size", "concurrent"] t with
  | excluded :: included :: extensions :: schemaExtensions :: schemaRecursive :: batchSize ::
      concurrent :: _ =>
    some {
      excluded := ← texts? excluded
      included := ← texts? included
      extensions := ← texts? extensions
      schemaExtensions := ← texts? schemaExtensions
      schemaRecursive := ← flag? schemaRecursive
      batchSize := ← count? batchSize
      concurrent := ← flag? concurrent }
  | _ => none

/-- Read the section on queries. -/
def query? (t : Toml) : Option QuerySettings := do
  match ← fields ["default_limit", "max_ambiguous", "max_suggestions", "max_edit_distance"] t with
  | defaultLimit :: maxAmbiguous :: maxSuggestions :: maxEditDistance :: _ =>
    some {
      defaultLimit := ← count? defaultLimit
      maxAmbiguous := ← count? maxAmbiguous
      maxSuggestions := ← count? maxSuggestions
      maxEditDistance := ← count? maxEditDistance }
  | _ => none

/-- Read the section on the schema. -/
def schema? (t : Toml) : Option SchemaSettings := do
  match ← fields ["table_prefix", "component_prefix"] t with
  | table :: component :: _ =>
    some { tablePrefix := ← text? table, componentPrefix := ← text? component }
  | _ => none

/-- Read the section on answers. -/
def output? (t : Toml) : Option OutputSettings := do
  match ← fields ["max_chars"] t with
  | maxChars :: _ => some { maxChars := ← count? maxChars }
  | _ => none

/-- Read the section on storage. -/
def storage? (t : Toml) : Option StorageSettings := do
  match ← fields ["index_file", "schema_file"] t with
  | indexFile :: schemaFile :: _ =>
    some { indexFile := ← text? indexFile, schemaFile := ← text? schemaFile }
  | _ => none

/-- Read the section on logging. -/
def logging? (t : Toml) : Option LoggingSettings := do
  match ← fields ["level", "format"] t with
  | level :: format :: _ => some { level := ← text? level, format := ← text? format }
  | _ => none

/-- A section that is read when it is there and keeps its defaults when it is not. -/
def sectionOr {α : Type} (read : Toml → Option α) (default : α) (key : String)
    (entries : List (String × Toml)) : Option α :=
  match Toml.find? key entries with
  | some t => read t
  | none => some default

/-- Read a configuration from the table of a settings text. -/
def ofToml? : Toml → Option Config
  | .table _ entries => do
    some {
      project := ← sectionOr project? {} "project" entries
      source := ← sectionOr source? {} "source" entries
      indexing := ← sectionOr indexing? {} "indexing" entries
      query := ← sectionOr query? {} "query" entries
      schema := ← sectionOr schema? {} "schema" entries
      output := ← sectionOr output? {} "output" entries
      storage := ← sectionOr storage? {} "storage" entries
      logging := ← sectionOr logging? {} "logging" entries }
  | _ => none

/-- The configuration of a settings text, if it is well formed and accepted. -/
def ofText (text : String) : Except ConfigError Config :=
  match (Toml.parse? text).bind ofToml? with
  | none => .error .malformed
  | some config =>
    match config.fault? with
    | none => .ok config
    | some fault => .error (.rejected fault)

/-- The empty text gives the defaults. -/
theorem ofText_empty : ofText "" = .ok {} := by rfl

end Config

end CodeIndex
