import CodeIndex.Path

/-!
# Files and directories

A tree of files: files with their bytes, symbolic links with their targets, and
directories, each at the list of names that leads to it from the root.  A path starts at
the root or in the working directory, and one that ends in a slash or in a dot leads to a
directory or nowhere.

A file may have several names (hard links): all of them hold the same bytes, what is written
at one is seen at the others, and moving another file over one of them leaves the rest as they
are.  A directory is read in an order of the disk's own.  Left out are devices and pipes,
permissions, owners and times, names that are no text, other file systems below the root, and other
programs that change the tree at the same time.

* `get?_put_self`, `get?_put_of_ne` : writing one place is seen there and nowhere else.
-/

namespace CodeIndex

/-- What stands at a place. -/
inductive Entry where
  | file (bytes : ByteArray)
  | link (target : String)
  | dir
  deriving Inhabited

/-- The names that lead from the root to a place; the root itself has none. -/
abbrev Place := List String

/-- Lists of names, in their order. -/
def sortedNames (names : List (List String)) : List (List String) :=
  names.mergeSort fun a b => !decide (b < a)

/-- Everything below the root, and the working directory. -/
structure Disk where
  entries : List (Place × Entry) := []
  cwd : Place := []
  /-- The places at which a file with several names stands, each with the number of its file. -/
  numbers : List (Place × Nat) := []
  /-- The order in which the files below a directory are met, each by its names from there. -/
  visit : List (List String) → List (List String) := sortedNames
  deriving Inhabited

/-- Why an operation on a path fails. -/
inductive DiskError where
  | notFound
  | alreadyThere
  | notDirectory
  | isDirectory
  | busy
  | nameTooLong
  | tooManyLinks
  /-- The path holds a character that no path may hold. -/
  | zeroChar
  deriving DecidableEq, Repr, Inhabited

/-- The wording of a failure. -/
def DiskError.message : DiskError → String
  | .notFound => "No such file or directory (os error 2)"
  | .alreadyThere => "File exists (os error 17)"
  | .notDirectory => "Not a directory (os error 20)"
  | .isDirectory => "Is a directory (os error 21)"
  | .busy => "Device or resource busy (os error 16)"
  | .nameTooLong => "File name too long (os error 36)"
  | .tooManyLinks => "Too many levels of symbolic links (os error 40)"
  | .zeroChar => "file name contained an unexpected NUL byte"

namespace Disk

/-- The entry at a place among entries. -/
def findEntry (place : Place) : List (Place × Entry) → Option Entry
  | [] => none
  | (p, e) :: rest => if p = place then some e else findEntry place rest

/-- The entry at a place; the root is always there. -/
def get? (disk : Disk) (place : Place) : Option Entry :=
  if place = [] then some .dir else findEntry place disk.entries

/-- Entries with one place written. -/
def putEntry (place : Place) (entry : Entry) : List (Place × Entry) → List (Place × Entry)
  | [] => [(place, entry)]
  | (p, e) :: rest =>
    if p = place then (p, entry) :: rest else (p, e) :: putEntry place entry rest

/-- Write an entry at a place. -/
def put (disk : Disk) (place : Place) (entry : Entry) : Disk :=
  { disk with entries := putEntry place entry disk.entries }

/-- Remove what stands at a place and below it. -/
def erase (disk : Disk) (place : Place) : Disk :=
  { disk with
    entries := disk.entries.filter fun (p, _) => !place.isPrefixOf p
    numbers := disk.numbers.filter fun (p, _) => !place.isPrefixOf p }

/-- The number of the file at a place, if it may have other names. -/
def number? (disk : Disk) (place : Place) : Option Nat := disk.numbers.lookup place

/-- Are two places names of one file? -/
def sameFile (disk : Disk) (place other : Place) : Bool :=
  place == other || (disk.number? place).isSome && disk.number? place == disk.number? other

/-- All names of the file at a place. -/
def names (disk : Disk) (place : Place) : List Place :=
  place :: (disk.numbers.map Prod.fst).filter (disk.sameFile place)

/-- Write a file at a place.  If there is one already, all its names show the new bytes. -/
def fill (disk : Disk) (place : Place) (bytes : ByteArray) : Disk :=
  (disk.names place).foldl (fun disk name => disk.put name (.file bytes)) disk

/-- Numbers after one name of a file was taken to a target, whose old file loses that name. -/
def renumber (origin target : Place) (numbers : List (Place × Nat)) : List (Place × Nat) :=
  numbers.filterMap fun (p, n) =>
    if p = origin then some (target, n) else if p = target then none else some (p, n)

/-- Take what stands at a place to another place, over what stands there. -/
def rename (disk : Disk) (origin target : Place) (entry : Entry) : Disk :=
  { (disk.erase origin).put target entry with numbers := renumber origin target disk.numbers }

/-- Where a path leads: to something, or to a free place in a directory. -/
inductive Found where
  | taken (place : Place) (entry : Entry)
  | free (place : Place)
  deriving Inhabited

/-- The number of links that one path may pass. -/
def linkLimit : Nat := 40

/-- The number of bytes that a name may have. -/
def nameLimit : Nat := 255

/-- The number of bytes that a path may have. -/
def pathLimit : Nat := 4095

/-- A step along a path. -/
inductive Step where
  | root
  | up
  /-- A dot, which stays where it is. -/
  | here
  | named (name : String)
  /-- A slash at the end of the path. -/
  | slash
  deriving DecidableEq, Repr, Inhabited

/-- The step of a piece between slashes, unless it is empty. -/
def step? (piece : List Char) : Option Step :=
  if piece == [] then none
  else if piece == ['.'] then some .here
  else if piece == ['.', '.'] then some .up
  else some (.named (String.ofList piece))

/-- The steps of a path. -/
def steps (path : String) : List Step :=
  let cs := path.toList
  let front := if Text.startsWith ['/'] cs then [Step.root] else []
  let back := if Text.endsWith ['/'] cs then [Step.slash] else []
  front ++ (Text.splitAt '/' cs).filterMap step? ++ back

/-- What the last name of a path is looked up for: to use what is there, with links followed;
to change the directory that it is in; or to write a file there. -/
inductive Aim where
  | use
  | change
  | write
  deriving DecidableEq, Repr, Inhabited

/-- Follow steps from a place that is a directory.  `follow` goes on behind a link, from the
directory that it stands in, along its target and the steps left. -/
def walkWith (disk : Disk) (aim : Aim) (follow : Place → List Step → Except DiskError Found)
    (start : Place) (way : List Step) : Except DiskError Found :=
  match way with
  | [] => .ok (.taken start .dir)
  | .root :: rest => walkWith disk aim follow [] rest
  | .here :: rest => walkWith disk aim follow start rest
  | .slash :: rest => walkWith disk aim follow start rest
  | .up :: rest => walkWith disk aim follow start.dropLast rest
  | .named name :: rest =>
    if aim == Aim.write && !rest.isEmpty && rest.all (· == Step.slash) then .error .isDirectory
    else if name.utf8ByteSize > nameLimit then .error .nameTooLong
    else
      let place := start ++ [name]
      match disk.get? place with
      | none => if rest.isEmpty then .ok (.free place) else .error .notFound
      | some .dir => walkWith disk aim follow place rest
      | some (.file bytes) =>
        if rest.isEmpty then .ok (.taken place (.file bytes)) else .error .notDirectory
      | some (.link target) =>
        if rest.isEmpty && aim == Aim.change then .ok (.taken place (.link target))
        else follow start (steps target ++ rest)

/-- Follow steps from a place that is a directory, passing at most `links` links. -/
def walk (disk : Disk) (aim : Aim) : Nat → Place → List Step → Except DiskError Found
  | 0 => walkWith disk aim fun _ _ => .error .tooManyLinks
  | links + 1 => walkWith disk aim (walk disk aim links)

/-- Where a path leads. -/
def find (disk : Disk) (aim : Aim) (path : String) : Except DiskError Found :=
  if path.toList.any (·.toNat == 0) then .error .zeroChar
  else if path.isEmpty then .error .notFound
  else if path.utf8ByteSize > pathLimit then .error .nameTooLong
  else walk disk aim linkLimit disk.cwd (steps path)

/-- What a path leads to, if there is something. -/
def lookup (disk : Disk) (path : String) : Except DiskError (Place × Entry) :=
  match disk.find .use path with
  | .ok (.taken place entry) => .ok (place, entry)
  | .ok (.free _) => .error .notFound
  | .error e => .error e

/-- Is there something at the end of the path? -/
def pathExists (disk : Disk) (path : String) : Bool :=
  match disk.lookup path with
  | .ok _ => true
  | .error _ => false

/-- The place of the directory a path leads to. -/
def directory? (disk : Disk) (path : String) : Option Place :=
  match disk.lookup path with
  | .ok (place, .dir) => some place
  | _ => none

/-- Does the path lead to a directory? -/
def isDir (disk : Disk) (path : String) : Bool := (disk.directory? path).isSome

/-- The bytes of the file a path leads to. -/
def read (disk : Disk) (path : String) : Except DiskError ByteArray :=
  match disk.lookup path with
  | .ok (_, .file bytes) => .ok bytes
  | .ok (_, _) => .error .isDirectory
  | .error e => .error e

/-- Write a file, making it if its place is free. -/
def write (disk : Disk) (path : String) (bytes : ByteArray) : Except DiskError Disk :=
  match disk.find .write path with
  | .ok (.free place) => .ok (disk.fill place bytes)
  | .ok (.taken place (.file _)) => .ok (disk.fill place bytes)
  | .ok (.taken _ _) => .error .isDirectory
  | .error e => .error e

/-- Make a directory at a free place. -/
def makeDir (disk : Disk) (path : String) : Except DiskError Disk :=
  match disk.find .change path with
  | .ok (.free place) => .ok (disk.put place .dir)
  | .ok (.taken _ _) => .error .alreadyThere
  | .error e => .error e

/-- How a path ends. -/
inductive Ending where
  | name
  | slash
  | dots
  deriving DecidableEq, Repr, Inhabited

/-- How a path ends: in a name, in a name and a slash, or in no name. -/
def ending (path : String) : Ending :=
  match (steps path).reverse with
  | .named _ :: _ => .name
  | .slash :: .named _ :: _ => .slash
  | _ => .dots

/-- A path without the slashes at its end. -/
def withoutSlash (path : String) : String :=
  String.ofList (path.toList.reverse.dropWhile (· == '/')).reverse

/-- Where a path leads to that a file is to be moved to.  The path has to end in a name. -/
def findTarget (disk : Disk) (path : String) : Except DiskError Found :=
  match ending path with
  | .name => disk.find .change path
  | .slash => (disk.find .change (withoutSlash path)).bind fun _ => .error .notDirectory
  | .dots => (disk.find .change path).bind fun _ => .error .busy

/-- Move a file to a path, over a file or link that stands there.  Nothing is done if that is
the same file already, under this name or another. -/
def move (disk : Disk) (source target : String) : Except DiskError Disk :=
  match disk.find .change source with
  | .ok (.taken place entry) =>
    match disk.findTarget target with
    | .ok (.taken _ .dir) => .error .isDirectory
    | .ok (.taken other _) =>
      if disk.sameFile place other then .ok disk else .ok (disk.rename place other entry)
    | .ok (.free other) => .ok (disk.rename place other entry)
    | .error e => .error e
  | .ok (.free _) => .error .notFound
  | .error e => .error e

/-- Make a directory unless there is one.  A failure is none if there is one already. -/
def ensureDir (disk : Disk) (path : String) : Except DiskError Disk :=
  match disk.makeDir path with
  | .ok disk => .ok disk
  | .error e => if disk.isDir path then .ok disk else .error e

/-- Make a directory and those it needs above it; what was made stays when a later one
fails. -/
def makeDirs (disk : Disk) (fuel : Nat) (path : String) : Disk × Except DiskError Unit :=
  match fuel with
  | 0 => (disk, .error .notFound)
  | fuel + 1 =>
    if path.isEmpty then (disk, .ok ())
    else
      match disk.makeDir path with
      | .ok disk => (disk, .ok ())
      | .error .notFound =>
        match Path.parent? path with
        | none => (disk, .error .notFound)
        | some parent =>
          match makeDirs disk fuel parent with
          | (disk, .error e) => (disk, .error e)
          | (disk, .ok ()) =>
            match disk.ensureDir path with
            | .ok disk => (disk, .ok ())
            | .error e => (disk, .error e)
      | .error e => if disk.isDir path then (disk, .ok ()) else (disk, .error e)

/-- The names below a directory that lead to a place, if it lies below it. -/
def namesBelow? (root place : Place) : Option (List String) :=
  match root.isPrefixOf? place with
  | some [] => none
  | below => below

/-- The files and links below the working directory, by their paths, in order. -/
def listing (disk : Disk) : List String :=
  (disk.entries.filterMap fun (place, entry) =>
    match entry with
    | .dir => none
    | _ => (namesBelow? disk.cwd place).map (joinWith "/")).mergeSort fun a b => !decide (b < a)

/-- The entry that was put at a place is found there. -/
theorem findEntry_putEntry_self (place : Place) (entry : Entry) :
    ∀ entries : List (Place × Entry), findEntry place (putEntry place entry entries) = some entry
  | [] => by simp [putEntry, findEntry]
  | (p, e) :: rest => by
    unfold putEntry
    split
    · rename_i h
      simp [findEntry, h]
    · rename_i h
      simp [findEntry, h, findEntry_putEntry_self place entry rest]

/-- Putting an entry changes nothing at another place. -/
theorem findEntry_putEntry_of_ne {place other : Place} (h : other ≠ place) (entry : Entry) :
    ∀ entries : List (Place × Entry),
      findEntry other (putEntry place entry entries) = findEntry other entries
  | [] => by simp [putEntry, findEntry, Ne.symm h]
  | (p, e) :: rest => by
    unfold putEntry
    split
    · rename_i hp
      subst hp
      simp [findEntry, Ne.symm h]
    · simp [findEntry, findEntry_putEntry_of_ne h entry rest]

/-- What was written at a place below the root is found there. -/
theorem get?_put_self (disk : Disk) {place : Place} (h : place ≠ []) (entry : Entry) :
    (disk.put place entry).get? place = some entry := by
  simp [get?, put, h, findEntry_putEntry_self]

/-- Writing at one place does not change what stands at another. -/
theorem get?_put_of_ne (disk : Disk) {place other : Place} (h : other ≠ place) (entry : Entry) :
    (disk.put place entry).get? other = disk.get? other := by
  simp [get?, put, findEntry_putEntry_of_ne h]

end Disk

end CodeIndex
