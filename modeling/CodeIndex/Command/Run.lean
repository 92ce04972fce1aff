import CodeIndex.Build
import CodeIndex.Command.Line
import CodeIndex.ConfigFile
import CodeIndex.Decimal.Double
import CodeIndex.Tool

/-!
# Running a command

A command reads the project directory, may write its kept indexes, and reports on two
channels with an exit code: zero when it did its work, one when it failed, two when the
command line was not understood.
-/

namespace CodeIndex.Command

/-- The version of the program. -/
def versionNumber : String := "0.1.0"

/-- A piece of output: a text, or the time that the work took. -/
inductive Piece where
  | text (s : String)
  | elapsed
  deriving DecidableEq, Repr, Inhabited

/-- What a command reports. -/
structure Report where
  exit : Nat := 0
  output : List Piece := []
  errors : String := ""
  deriving DecidableEq, Repr, Inhabited

namespace Report

/-- A report of one text. -/
def ofText (s : String) : Report := { output := [.text s] }

/-- A report of a failure: the message, and the cause if there is one. -/
def failure (message : String) (cause : Option String) : Report :=
  { exit := 1
    errors := "Error: " ++ message ++ optionally cause ("\n\nCaused by:\n    " ++ ·) ++ "\n" }

/-- One report after the other. -/
def append (a b : Report) : Report := ⟨b.exit, a.output ++ b.output, a.errors ++ b.errors⟩

/-- The text of the output, given the time that the work took. -/
def render (r : Report) (elapsed : String) : String :=
  Render.concat (r.output.map fun piece =>
    match piece with
    | .text s => s
    | .elapsed => elapsed)

end Report

/-- A time span in the greatest unit that it fills, with two places. -/
def durationText (nanos : Nat) : String :=
  let (unit, name) :=
    if 1000000000 ≤ nanos then (1000000000, "s")
    else if 1000000 ≤ nanos then (1000000, "ms")
    else if 1000 ≤ nanos then (1000, "µs")
    else (1, "ns")
  let hundredths := Decimal.roundHalf (nanos * 100) unit
  toString (hundredths / 100) ++ "." ++ Timestamp.padded 2 (hundredths % 100) ++ name

/-- A report that a snapshot could not be kept. -/
def saveFailure (e : SaveError) : Report := .failure e.message (some e.cause.message)

/-- A report that there is nothing to work on. -/
def missingSource (config : Config) (dir : String) : Report :=
  .ofText (
    "No index found and no source tree at " ++ config.sourceRoot dir ++ ".\n" ++
    "Set project.source_root in " ++ configFile ++ " and run `phpindex build` first.\n")

/-- The first lines of a report. -/
def banner (config : Config) : String :=
  "phpindex v" ++ versionNumber ++ "\nProject: " ++ config.project.name ++ "\n"

/-- What a build reports before it starts. -/
def buildHead (config : Config) (dir : String) : Report :=
  .ofText (
    banner config ++ "Source root: " ++ config.sourceRoot dir ++ "\nSchema root: " ++
    config.schemaRoot dir ++ "\nConcurrent: " ++
    (if config.indexing.concurrent then "true" else "false") ++ "\n")

/-- What a build reports about where its snapshot came from. -/
def originLines (config : Config) (dir : String) : Origin → List Piece
  | .cache => [.text ("\nUsing cached index at " ++ config.indexPath dir ++
      " (pass --rebuild to re-parse)\n")]
  | .built => [.text "\nIndexed in ", .elapsed, .text ("\nIndex: " ++ config.indexPath dir ++
      "\nSchema: " ++ config.schemaPath dir ++ "\n")]

/-- What a build reports about its snapshot. -/
def buildReport (config : Config) (dir : String) : Build.Opened → Report
  | .error e => saveFailure e
  | .ok none => missingSource config dir
  | .ok (some (s, origin)) =>
    { output := originLines config dir origin ++
        [.text ("\n" ++ Render.stats s.stats s.index ++ "\n")] }

/-- Build, or use what is kept. -/
def build (config : Config) (disk : Disk) (now : Timestamp) (dir : String)
    (rebuild concurrent : Bool) : Disk × Report :=
  let config := { config with
    indexing := { config.indexing with concurrent := config.indexing.concurrent || concurrent } }
  let (disk, opened) := Build.loadOrBuild config disk now dir rebuild
  (disk, (buildHead config dir).append (buildReport config dir opened))

/-- Call a tool on the project's snapshot. -/
def callTool (config : Config) (disk : Disk) (now : Timestamp) (dir : String) (tool : Tool)
    (args : List (String × Json)) : Disk × Except Report String :=
  match Build.loadOrBuild config disk now dir false with
  | (disk, .error e) => (disk, .error (saveFailure e))
  | (disk, .ok none) => (disk, .error (missingSource config dir))
  | (disk, .ok (some (s, _))) =>
    match Tool.call ⟨s, config, config.sourceRoot dir⟩ tool.name (Dict.ofList args) with
    | .ok text => (disk, .ok text)
    | .error e => (disk, .error (.failure e.message none))

/-- Call a tool and report its answer. -/
def query (config : Config) (disk : Disk) (now : Timestamp) (dir : String) (tool : Tool)
    (args : List (String × Json)) : Disk × Report :=
  match callTool config disk now dir tool args with
  | (disk, .ok text) => (disk, .ofText (text ++ "\n"))
  | (disk, .error report) => (disk, report)

/-- An argument that is passed on when it is given. -/
def passed (name : String) (value : Option String) : List (String × Json) :=
  match value with
  | some text => [(name, .str text)]
  | none => []

/-- The number of bytes of what a path leads to; a directory counts as none. -/
def sizeOf? (disk : Disk) (path : String) : Option Nat :=
  match disk.lookup path with
  | .ok (_, .file bytes) => some bytes.size
  | .ok _ => some 0
  | .error _ => none

/-- A number of bytes in megabytes with two places. -/
def megabytes (bytes : Nat) : String :=
  let hundredths := Decimal.roundHalf (bytes * 100) (1024 * 1024)
  toString (hundredths / 100) ++ "." ++ Timestamp.padded 2 (hundredths % 100) ++ " MB"

/-- A file with its size. -/
def fileLine (disk : Disk) (label path : String) : String :=
  label ++ " file: " ++ path ++ " (" ++
    (match sizeOf? disk path with
      | some bytes => megabytes bytes
      | none => "missing") ++ ")\n"

/-- What the report of counts says before the counts. -/
def statsHead (config : Config) (disk : Disk) (dir : String) : Report :=
  .ofText (
    banner config ++
    "Config: " ++
    (if disk.pathExists (Path.join dir configFile) then "loaded" else "default") ++ "\n" ++
    fileLine disk "Index" (config.indexPath dir) ++ fileLine disk "Schema" (config.schemaPath dir))

/-- Report the counts of the project's snapshot. -/
def stats (config : Config) (disk : Disk) (now : Timestamp) (dir : String) : Disk × Report :=
  let head := statsHead config disk dir
  match callTool config disk now dir .indexStats [] with
  | (disk, .ok text) => (disk, head.append (.ofText ("\n" ++ text ++ "\n")))
  | (disk, .error report) => (disk, head.append report)

/-- Run a command that is understood. -/
def runTask (disk : Disk) (now : Timestamp) (dir : String) (task : Task) : Disk × Report :=
  let (config, _) := Config.load disk dir
  match task with
  | .build rebuild concurrent => build config disk now dir rebuild concurrent
  | .lookup name member =>
    query config disk now dir .lookupClass (("name", .str name) :: passed "member" member)
  | .search text kind limit =>
    query config disk now dir .search
      ([("query", .str text), ("type", .str kind)] ++
        (limit.map fun n => ("limit", Json.nat n)).toList)
  | .events filter space =>
    query config disk now dir .listEvents (passed "filter" filter ++ passed "namespace" space)
  | .schema table component all =>
    query config disk now dir .lookupSchema
      (passed "table" table ++ passed "component" component ++
        if all then [("list_all", .bool true)] else [])
  | .stats => stats config disk now dir

/-- What is said about how the program is used. -/
def usage : String := "Usage: phpindex [OPTIONS] <COMMAND>\n"

/-- Run a command line in a project directory. -/
def run (disk : Disk) (now : Timestamp) (words : List String) : Disk × Report :=
  match ask words with
  | .run invocation => runTask disk now invocation.project invocation.task
  | .version => (disk, .ofText ("phpindex " ++ versionNumber ++ "\n"))
  | .help => (disk, .ofText usage)
  | .misuse => (disk, { exit := 2, errors := usage })

end CodeIndex.Command
