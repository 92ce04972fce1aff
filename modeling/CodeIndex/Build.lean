import CodeIndex.Discovery
import CodeIndex.Disk.Store
import CodeIndex.Php.Extract
import CodeIndex.Provenance
import CodeIndex.Sql.Script

/-!
# Building a snapshot

The declarations of every source file and the tables of every script, in the order of
discovery.  Source files may be read in batches that finish in any order; the batches are
then put together in their own order.  A kept index is used again unless a rebuild is
asked for.
-/

namespace CodeIndex

/-- Where a snapshot came from. -/
inductive Origin where
  | cache
  | built
  deriving DecidableEq, Repr, Inhabited

/-- The word for an origin. -/
def Origin.word : Origin → String
  | .cache => "cache"
  | .built => "built"

namespace Build

/-- Cut a list into batches of a size; the last may be shorter. -/
def batchesFrom {α : Type} (size : Nat) : Nat → List α → List (List α)
  | 0, _ => []
  | _ + 1, [] => []
  | fuel + 1, items => items.take size :: batchesFrom size fuel (items.drop size)

/-- Cut a list into batches of a size, at least one item each. -/
def batches {α : Type} (size : Nat) (items : List α) : List (List α) :=
  batchesFrom (max size 1) items.length items

/-- Put the result of a finished batch into its slot. -/
def finish {α β : Type} (work : α → β) (items : List α) (slots : List (Option β)) (i : Nat) :
    List (Option β) :=
  match items[i]? with
  | some item => slots.set i (some (work item))
  | none => slots

/-- Work through batches in the order of a schedule, and give the results in the order of
the batches. -/
def runSchedule {α β : Type} (work : α → β) (items : List α) (schedule : List Nat) : List β :=
  (schedule.foldl (finish work items) (items.map fun _ => none)).filterMap id

/-- The declarations of a file; a file that cannot be read has none. -/
def declarationsOf (config : Config) (disk : Disk) (path : String) : List Declaration :=
  if Path.hasExtension config.indexing.extensions path then
    match disk.read path with
    | .ok bytes => Php.parseDeclarations path (Text.lenient bytes)
    | .error _ => []
  else []

/-- The tables of a script; a script that cannot be read has none. -/
def tablesOf (config : Config) (disk : Disk) (path : String) : List Table :=
  if Path.hasExtension config.indexing.schemaExtensions path then
    match disk.read path with
    | .ok bytes => Sql.parseTables config.schema.tablePrefix (Text.lenient bytes)
    | .error _ => []
  else []

/-- The declarations of files, one file after the other. -/
def sequential (config : Config) (disk : Disk) (files : List String) : List Declaration :=
  files.flatMap (declarationsOf config disk)

/-- The declarations of files, in batches that finish as scheduled. -/
def inBatches (config : Config) (disk : Disk) (schedule : List Nat) (files : List String) :
    List Declaration :=
  (runSchedule (sequential config disk) (batches config.indexing.batchSize files)
    schedule).flatten

/-- The declarations below a root. -/
def declarations (config : Config) (disk : Disk) (root : String) : List Declaration :=
  let files := (Walk.forSources config).discover disk root
  if config.indexing.concurrent then
    inBatches config disk (List.range (batches config.indexing.batchSize files).length) files
  else sequential config disk files

/-- The tables below a root. -/
def tables (config : Config) (disk : Disk) (root : String) : List Table :=
  ((Walk.forSchema config).discover disk root).flatMap (tablesOf config disk)

/-- Build the snapshot of a source at a point in time. -/
def snapshot (config : Config) (disk : Disk) (now : Timestamp) (source : Source) : Snapshot :=
  let told := source.provenance disk
  ⟨Index.assemble now told.commit told.branch (declarations config disk source.sourceRoot),
    SchemaIndex.ofTables (tables config disk source.schemaRoot)⟩

/-- The snapshot that is kept.  The index decides; without a readable schema index there are
no tables. -/
def cached? (config : Config) (disk : Disk) (dir : String) : Option Snapshot :=
  (disk.loadIndex? (config.indexPath dir)).map fun index =>
    ⟨index, (disk.loadSchema? (config.schemaPath dir)).getD SchemaIndex.empty⟩

/-- The snapshot that may be used again. -/
def reusable? (config : Config) (disk : Disk) (dir : String) (rebuild : Bool) :
    Option Snapshot :=
  if rebuild then none else cached? config disk dir

/-- What a request for a snapshot gives: a snapshot and its origin, or none when nothing is
kept and there is no source tree. -/
abbrev Opened := Except SaveError (Option (Snapshot × Origin))

/-- The steps that fail by themselves when a snapshot is kept: at most one for the index and
one for the schema index. -/
structure Faults where
  index : Option SaveFault := none
  schema : Option SaveFault := none
  deriving DecidableEq, Repr, Inhabited

/-- Keep a snapshot: its index, then its schema index. -/
def keep (config : Config) (disk : Disk) (dir : String) (faults : Faults) (s : Snapshot) :
    Disk × Opened :=
  match disk.saveIndex faults.index (config.indexPath dir) s.index with
  | (disk, .error e) => (disk, .error e)
  | (disk, .ok ()) =>
    match disk.saveSchema faults.schema (config.schemaPath dir) s.schema with
    | (disk, .error e) => (disk, .error e)
    | (disk, .ok ()) => (disk, .ok (some (s, .built)))

/-- Use the kept snapshot, or build and keep a new one, where some steps fail by themselves. -/
def loadOrBuildWith (faults : Faults) (config : Config) (disk : Disk) (now : Timestamp)
    (dir : String) (rebuild : Bool) : Disk × Opened :=
  match reusable? config disk dir rebuild with
  | some s => (disk, .ok (some (s, .cache)))
  | none =>
    let source := Source.ofConfig config dir
    if source.hasSources disk then keep config disk dir faults (snapshot config disk now source)
    else (disk, .ok none)

/-- Use the kept snapshot, or build and keep a new one. -/
def loadOrBuild (config : Config) (disk : Disk) (now : Timestamp) (dir : String)
    (rebuild : Bool) : Disk × Opened :=
  loadOrBuildWith {} config disk now dir rebuild

end Build

end CodeIndex
