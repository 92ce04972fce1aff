import CodeIndex.Config
import CodeIndex.Disk.Store

/-!
# Provenance

The commit and the branch that an index was built from: as configured, and else as the
checkout tells.
-/

namespace CodeIndex

/-- A commit and a branch, as far as known. -/
structure Provenance where
  commit : Option String := none
  branch : Option String := none
  deriving DecidableEq, Repr, Inhabited

/-- Where the trees of a project are, and what is configured about them. -/
structure Source where
  sourceRoot : String
  schemaRoot : String
  repository : String
  configured : Provenance := {}
  deriving DecidableEq, Repr, Inhabited

namespace Source

open Text

/-- Trees at two roots; the checkout is that of the source root. -/
def ofRoots (sourceRoot schemaRoot : String) : Source :=
  { sourceRoot, schemaRoot, repository := sourceRoot }

/-- The trees of a configured project. -/
def ofConfig (config : Config) (dir : String) : Source where
  sourceRoot := config.sourceRoot dir
  schemaRoot := config.schemaRoot dir
  repository := dir
  configured := ⟨config.source.commit, config.source.branch⟩

/-- Is there a source tree? -/
def hasSources (s : Source) (disk : Disk) : Bool := disk.isDir s.sourceRoot

/-- The hash of a packed line, if the line names the reference. -/
def packedHash? (reference line : List Char) : Option String :=
  match splitOnce? ' ' line with
  | some (hash, name) => if trim name == reference then some (String.ofList hash) else none
  | none => none

/-- The hash of a reference among packed references. -/
def findPacked (reference packed : List Char) : Option String :=
  (lines packed).findSome? (packedHash? reference)

/-- The commit of a reference: its own file, or its packed line. -/
def commitOf (disk : Disk) (gitDir : String) (reference : List Char) : Option String :=
  match disk.readText? (Path.join gitDir (String.ofList reference)) with
  | some text => some (trimmed text)
  | none =>
    (disk.readText? (Path.join gitDir "packed-refs")).bind fun packed =>
      findPacked reference packed.toList

/-- What the head of a checkout tells: a reference to follow, or a commit. -/
def ofHead (disk : Disk) (gitDir head : String) : Provenance :=
  let head := trim head.toList
  match stripStart? "ref:".toList head with
  | none => { commit := some (String.ofList head) }
  | some rest =>
    let reference := trim rest
    { commit := commitOf disk gitDir reference
      branch := (stripStart? "refs/heads/".toList reference).map String.ofList }

/-- What the checkout tells. -/
def checkout (disk : Disk) (repository : String) : Provenance :=
  let gitDir := Path.join repository ".git"
  match disk.readText? (Path.join gitDir "HEAD") with
  | none => {}
  | some head => ofHead disk gitDir head

/-- The provenance of the trees: each part as configured, else as the checkout tells. -/
def provenance (s : Source) (disk : Disk) : Provenance :=
  let told := checkout disk s.repository
  { commit := s.configured.commit.or told.commit
    branch := s.configured.branch.or told.branch }

end Source

end CodeIndex
