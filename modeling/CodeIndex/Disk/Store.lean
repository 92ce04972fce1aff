import CodeIndex.Archive
import CodeIndex.Disk.Basic
import CodeIndex.Text.Utf8

/-!
# Keeping indexes on disk

An index is written to a temporary file beside its own and then moved into place, so its
file holds the old text or the new one and never a part.  A file that is missing, no text,
or no index of this version counts as no index.
-/

namespace CodeIndex

/-- Why an index could not be kept: the step that failed, where, and the cause. -/
inductive SaveError where
  | create (dir : String) (cause : DiskError)
  | write (path : String) (cause : DiskError)
  | move (path : String) (cause : DiskError)
  deriving DecidableEq, Repr, Inhabited

/-- The wording of a failure. -/
def SaveError.message : SaveError → String
  | .create dir _ => "Failed to create " ++ dir
  | .write path _ => "Failed to write " ++ path
  | .move path _ => "Failed to move index into place at " ++ path

/-- The cause of a failure. -/
def SaveError.cause : SaveError → DiskError
  | .create _ cause => cause
  | .write _ cause => cause
  | .move _ cause => cause

/-- A step of a save that fails by itself: making the directories, writing the temporary
file after some bytes, or moving it into place. -/
inductive SaveFault where
  | create (cause : DiskError)
  | write (written : Nat) (cause : DiskError)
  | move (cause : DiskError)
  deriving DecidableEq, Repr, Inhabited

namespace Disk

/-- The text of a file; none when the file is missing or no text. -/
def readText? (disk : Disk) (path : String) : Option String :=
  match disk.read path with
  | .ok bytes => Text.strict? bytes
  | .error _ => none

/-- The temporary file beside a path. -/
def temporaryPath (path : String) : String := Path.withExtension path "json.tmp"

/-- Make the directory that a file goes into. -/
def makeParent (disk : Disk) (path : String) : Disk × Except SaveError Unit :=
  match Path.parent? path with
  | none => (disk, .ok ())
  | some parent =>
    if parent.isEmpty then (disk, .ok ())
    else
      match disk.makeDirs (parent.length + 1) parent with
      | (disk, .ok ()) => (disk, .ok ())
      | (disk, .error e) => (disk, .error (.create parent e))

/-- Move the temporary file into place. -/
def moveIntoPlace (disk : Disk) (fault : Option SaveFault) (path : String) :
    Disk × Except SaveError Unit :=
  match fault with
  | some (.move e) => (disk, .error (.move path e))
  | _ =>
    match disk.move (temporaryPath path) path with
    | .ok disk => (disk, .ok ())
    | .error e => (disk, .error (.move path e))

/-- Write the temporary file and move it into place. -/
def writeThrough (disk : Disk) (fault : Option SaveFault) (path : String) (bytes : ByteArray) :
    Disk × Except SaveError Unit :=
  let tmp := temporaryPath path
  match fault with
  | some (.write written e) =>
    match disk.write tmp (bytes.extract 0 written) with
    | .ok disk => (disk, .error (.write tmp e))
    | .error e => (disk, .error (.write tmp e))
  | _ =>
    match disk.write tmp bytes with
    | .ok disk => moveIntoPlace disk fault path
    | .error e => (disk, .error (.write tmp e))

/-- Keep a text at a path, where at most one step fails by itself. -/
def save (disk : Disk) (fault : Option SaveFault) (path text : String) :
    Disk × Except SaveError Unit :=
  match fault with
  | some (.create e) => (disk, .error (.create ((Path.parent? path).getD "") e))
  | _ =>
    match disk.makeParent path with
    | (disk, .ok ()) => writeThrough disk fault path text.toUTF8
    | (disk, .error e) => (disk, .error e)

/-- The index kept at a path. -/
def loadIndex? (disk : Disk) (path : String) : Option Index :=
  (disk.readText? path).bind Index.ofArchive?

/-- The schema index kept at a path. -/
def loadSchema? (disk : Disk) (path : String) : Option SchemaIndex :=
  (disk.readText? path).bind SchemaIndex.ofArchive?

/-- Keep an index, where at most one step fails by itself. -/
def saveIndex (disk : Disk) (fault : Option SaveFault) (path : String) (index : Index) :
    Disk × Except SaveError Unit :=
  disk.save fault path index.archive

/-- Keep a schema index, where at most one step fails by itself. -/
def saveSchema (disk : Disk) (fault : Option SaveFault) (path : String) (schema : SchemaIndex) :
    Disk × Except SaveError Unit :=
  disk.save fault path schema.archive

end Disk

end CodeIndex
