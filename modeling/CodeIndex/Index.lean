import CodeIndex.Event
import CodeIndex.Schema
import CodeIndex.Timestamp

/-!
# Indexes and snapshots

An index holds the declarations of a source tree with two maps over them: the names of
each namespace, and the events.  A snapshot is an index and a schema index built together
and served as one unit.

* `declarations_stats` : the three kinds add up to all declarations.
-/

namespace CodeIndex

/-- The version tag of the records this library writes and accepts. -/
def formatVersion : String := "1"

/-- Add a name to the bucket of its namespace. -/
def addToNamespace (map : Dict (List String)) (d : Declaration) : Dict (List String) :=
  if d.space.isEmpty then map
  else map.insert d.space ((map.get? d.space).getD [] ++ [d.name])

/-- The names of each namespace, in the order of the declarations; the global namespace is
not listed. -/
def namespaceMapOf (ds : List Declaration) : Dict (List String) :=
  ds.foldl addToNamespace Dict.empty

/-- Every declaration of a source tree, where it came from, and the maps over it. -/
structure Index where
  version : String := formatVersion
  builtAt : Timestamp
  commit : Option String := none
  branch : Option String := none
  declarations : List Declaration := []
  namespaceMap : Dict (List String) := Dict.empty
  eventMap : Dict EventInfo := Dict.empty
  deriving DecidableEq, Inhabited

/-- How much an index holds. -/
structure Stats where
  classes : Nat
  interfaces : Nat
  traits : Nat
  methods : Nat
  properties : Nat
  constants : Nat
  namespaces : Nat
  events : Nat
  tables : Nat
  deriving DecidableEq, Repr, Inhabited

/-- The number of declarations of all kinds. -/
def Stats.declarations (s : Stats) : Nat := s.classes + s.interfaces + s.traits

namespace Index

/-- Index a list of declarations. -/
def assemble (builtAt : Timestamp) (commit branch : Option String) (ds : List Declaration) :
    Index where
  builtAt
  commit
  branch
  declarations := ds
  namespaceMap := namespaceMapOf ds
  eventMap := Event.mapOf ds

/-- The index without declarations. -/
def empty (builtAt : Timestamp) : Index := { builtAt }

/-- The number of declarations of a kind. -/
def countKind (kind : DeclarationKind) (ds : List Declaration) : Nat :=
  ds.countP fun d => d.kind == kind

/-- The sum of a count over the declarations. -/
def total (count : Declaration → Nat) (ds : List Declaration) : Nat := (ds.map count).foldr (· + ·) 0

/-- The counts of an index; tables are not its own. -/
def stats (i : Index) : Stats where
  classes := countKind .cls i.declarations
  interfaces := countKind .iface i.declarations
  traits := countKind .trt i.declarations
  methods := total (·.methods.length) i.declarations
  properties := total (·.properties.length) i.declarations
  constants := total (·.constants.length) i.declarations
  namespaces := i.namespaceMap.size
  events := i.eventMap.size
  tables := 0

/-- The three kinds add up to all declarations. -/
theorem declarations_stats (i : Index) : i.stats.declarations = i.declarations.length := by
  simp only [stats, Stats.declarations, countKind]
  induction i.declarations with
  | nil => rfl
  | cons d rest ih =>
    simp only [List.countP_cons, List.length_cons]
    cases hk : d.kind <;> simp <;> omega

end Index

/-- An index and a schema index built together. -/
structure Snapshot where
  index : Index
  schema : SchemaIndex
  deriving DecidableEq, Inhabited

namespace Snapshot

/-- The snapshot that holds nothing. -/
def empty (builtAt : Timestamp) : Snapshot := ⟨Index.empty builtAt, SchemaIndex.empty⟩

/-- The counts of both indexes. -/
def stats (s : Snapshot) : Stats := { s.index.stats with tables := s.schema.tables.length }

end Snapshot

/-- The snapshot that is served now.  A reader takes the current snapshot once and keeps it
for a whole request, whatever is installed meanwhile. -/
structure Served where
  current : Snapshot
  deriving Inhabited

/-- Install a snapshot; the one it replaces is given back. -/
def Served.replace (served : Served) (next : Snapshot) : Snapshot × Served :=
  (served.current, { served with current := next })

end CodeIndex
