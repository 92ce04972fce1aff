import CodeIndex.Config
import CodeIndex.Disk.Basic

/-!
# Discovery

The files below a root that are to be indexed: regular files with one of the extensions
whose path relative to the root the patterns admit, in the order in which the disk gives
them.  Links below the root are not followed.
-/

namespace CodeIndex

/-- Which files a walk looks for. -/
structure Walk where
  extensions : List String
  isRecursive : Bool
  config : Config
  deriving Inhabited

namespace Walk

/-- The walk for declaration files. -/
def forSources (config : Config) : Walk := ⟨config.indexing.extensions, true, config⟩

/-- The walk for installation scripts: one level, unless the configuration asks for all. -/
def forSchema (config : Config) : Walk :=
  ⟨config.indexing.schemaExtensions, config.indexing.schemaRecursive, config⟩

/-- The regular files below a directory, each by its names from there, as they are met. -/
def filesBelow (disk : Disk) (root : Place) : List (List String) :=
  disk.visit (disk.entries.filterMap fun (place, entry) =>
    match entry with
    | .file _ => Disk.namesBelow? root place
    | _ => none)

/-- The path of names below a root. -/
def pathOf (root : String) (names : List String) : String := names.foldl Path.join root

/-- Is the file at a path below the root one that the walk looks for? -/
def accepts (w : Walk) (root path : String) : Bool :=
  Path.hasExtension w.extensions path &&
    w.config.shouldIndex ((Path.relativeTo? path root).getD path)

/-- Is the file within the depth of the walk? -/
def reaches (w : Walk) (names : List String) : Bool := w.isRecursive || names.length ≤ 1

/-- The files that the walk finds; a root that is no directory has none. -/
def discover (w : Walk) (disk : Disk) (root : String) : List String :=
  match disk.directory? root with
  | none => []
  | some place =>
    (((filesBelow disk place).filter w.reaches).map (pathOf root)).filter (w.accepts root)

end Walk

end CodeIndex
