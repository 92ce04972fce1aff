import CodeIndex.Command.Run

/-!
# The program

Reads the trees that a command works on, runs the command, and writes back what it
changed.  All decisions are made by `Command.run`.
-/

namespace CodeIndex

/-- The place of an absolute path. -/
def placeOfPath (path : String) : Place :=
  (Path.components path).filterMap fun c =>
    match c with
    | .named name => some (String.ofList name)
    | _ => none

/-- The absolute path of a place. -/
def pathOfPlace (place : Place) : String := "/" ++ joinWith "/" place

/-- The directories that lead to a place, and the place itself as one. -/
def withAncestors (disk : Disk) (place : Place) : Disk :=
  (List.range place.length).foldl (fun disk n => disk.put (place.take (n + 1)) .dir) disk

/-- Add everything below a directory. -/
partial def addTree (disk : Disk) (path : String) : IO Disk := do
  let mut disk := disk
  for child in ← (← IO.FS.realPath path).readDir do
    let below := path ++ "/" ++ child.fileName
    let place := placeOfPath below
    match (← child.path.symlinkMetadata).type with
    | .dir => disk ← addTree { disk with entries := (place, .dir) :: disk.entries } below
    | .file =>
      let bytes ← IO.FS.readBinFile below
      disk := { disk with entries := (place, .file bytes) :: disk.entries }
    | .symlink =>
      let target := (← IO.FS.realPath below).toString
      disk := { disk with entries := (place, .link target) :: disk.entries }
    | .other => pure ()
  return disk

/-- What has been read so far, and the places whose trees are complete. -/
structure Reading where
  disk : Disk
  complete : List Place := []

/-- Add the tree at a path, if there is a directory and its tree is not there yet. -/
def Reading.addRoot (r : Reading) (path : String) : IO Reading := do
  let real ← IO.FS.realPath (if path.isEmpty then "." else path)
  let place := placeOfPath real.toString
  if r.complete.any (·.isPrefixOf place) || !(← real.isDir) then return r
  let disk ← addTree (withAncestors (r.disk.erase place) place) real.toString
  return ⟨disk, place :: r.complete⟩

/-- The trees that a command line works on: those of the project and of its two roots. -/
def readTrees (words : List String) : IO Disk := do
  let cwd := placeOfPath (← IO.currentDir).toString
  let start : Reading := ⟨withAncestors { cwd } cwd, []⟩
  match Command.ask words with
  | .run invocation =>
    let dir := invocation.project
    let r ← start.addRoot dir
    let config := (Config.load r.disk dir).1
    let r ← r.addRoot (config.sourceRoot dir)
    let r ← r.addRoot (config.schemaRoot dir)
    return r.disk
  | _ => return start.disk

/-- Do two entries hold the same? -/
def sameEntry : Entry → Entry → Bool
  | .file a, .file b => a.data == b.data
  | .link a, .link b => a == b
  | .dir, .dir => true
  | _, _ => false

/-- Write back what changed. -/
def writeBack (old new : Disk) : IO Unit := do
  for (place, entry) in new.entries do
    unless (old.get? place).any (sameEntry entry) do
      match entry with
      | .dir => IO.FS.createDirAll (pathOfPlace place)
      | .file bytes => IO.FS.writeBinFile (pathOfPlace place) bytes
      | .link _ => pure ()
  for (place, _) in old.entries do
    if (new.get? place).isNone then IO.FS.removeFile (pathOfPlace place)

/-- The present point in time, as the file system tells it. -/
def presentTime : IO Timestamp := do
  let (_, path) ← IO.FS.createTempFile
  let modified := (← path.metadata).modified
  IO.FS.removeFile path
  return Timestamp.ofSeconds modified.sec.toNat modified.nsec.toNat

end CodeIndex

open CodeIndex in
/-- Run a command line and give its exit code. -/
def main (words : List String) : IO UInt32 := do
  let start ← IO.monoNanosNow
  let disk ← readTrees words
  let (changed, report) := Command.run disk (← presentTime) words
  writeBack disk changed
  let elapsed := Command.durationText ((← IO.monoNanosNow) - start)
  (← IO.getStdout).putStr (report.render elapsed)
  (← IO.getStderr).putStr report.errors
  return UInt32.ofNat report.exit
