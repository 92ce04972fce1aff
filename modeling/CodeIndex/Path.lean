import CodeIndex.Text.Slice

/-!
# Paths

A path is a text of pieces between slashes.  Empty pieces and single dots say nothing,
except a dot in front, which stands for the directory itself.  A path is read through its
components, while its text stays as written.

* `join_absolute` : an absolute right side replaces the left.
-/

namespace CodeIndex

/-- What a piece of a path stands for. -/
inductive Component where
  | root
  | here
  | up
  | named (name : List Char)
  deriving DecidableEq, Repr, Inhabited

namespace Path

open Text

/-- Does a piece inside a path say nothing? -/
def isTrivial (piece : List Char) : Bool := piece == [] || piece == ['.']

/-- The component in front of a path, if it is the root or the directory itself, and the
pieces after it. -/
def lead (cs : List Char) : Option Component × List (List Char) :=
  match splitAt '/' cs with
  | [] :: piece :: rest => (some .root, piece :: rest)
  | ['.'] :: rest => (some .here, rest)
  | pieces => (none, pieces)

/-- The component of a piece that says something. -/
def component (piece : List Char) : Component :=
  if piece == ['.', '.'] then .up else .named piece

/-- The components of a path. -/
def components (path : String) : List Component :=
  let (front, body) := lead path.toList
  front.toList ++ (body.filter fun piece => !isTrivial piece).map component

/-- Pieces without the trailing ones that say nothing. -/
def dropTrivialTail (pieces : List (List Char)) : List (List Char) :=
  (pieces.reverse.dropWhile isTrivial).reverse

/-- The text of a front component and the pieces after it. -/
def write (front : Option Component) (body : List (List Char)) : List Char :=
  match front with
  | some .root => '/' :: Text.join ['/'] body
  | some .here => Text.join ['/'] (['.'] :: body)
  | _ => Text.join ['/'] body

/-- Is the path absolute? -/
def isAbsolute (path : String) : Bool := startsWith ['/'] path.toList

/-- Append a path.  An absolute right side replaces the left; otherwise one slash stands
between them unless the left is empty or ends in one.  Nothing is normalised. -/
def join (left right : String) : String :=
  if isAbsolute right then right
  else if left.isEmpty || endsWith ['/'] left.toList then left ++ right
  else left ++ "/" ++ right

/-- The pieces up to a file name, and the file name, when the last component is a name. -/
def splitName? (path : String) : Option (Option Component × List (List Char) × List Char) :=
  let (front, body) := lead path.toList
  match (dropTrivialTail body).reverse with
  | name :: before => if name == ['.', '.'] then none else some (front, before.reverse, name)
  | [] => none

/-- The file name of a path. -/
def fileName? (path : String) : Option String :=
  (splitName? path).map fun (_, _, name) => String.ofList name

/-- The stem and the extension of a file name: the parts around its last dot, where a dot
in front does not count. -/
def splitExtension (name : List Char) : List Char × Option (List Char) :=
  match splitLast? '.' name with
  | some ([], _) => (name, none)
  | some (stem, extension) => (stem, some extension)
  | none => (name, none)

/-- The extension of a path. -/
def extension? (path : String) : Option String :=
  (splitName? path).bind fun (_, _, name) => (splitExtension name).2.map String.ofList

/-- The path with the extension of its file name replaced. -/
def withExtension (path extension : String) : String :=
  match splitName? path with
  | some (front, before, name) =>
    String.ofList
      (write front (before ++ [(splitExtension name).1 ++ '.' :: extension.toList]))
  | none => path

/-- The path without its last component; the root and the empty path have none. -/
def parent? (path : String) : Option String :=
  let (front, body) := lead path.toList
  match (dropTrivialTail body).reverse with
  | _ :: before => some (String.ofList (write front (dropTrivialTail before.reverse)))
  | [] => if front = some .here then some "" else none

/-- The pieces left after the given components. -/
def dropComponents : List Component → List (List Char) → Option (List (List Char))
  | [], pieces => some pieces
  | c :: cs, pieces =>
    match pieces.dropWhile isTrivial with
    | piece :: rest => if component piece = c then dropComponents cs rest else none
    | [] => none

/-- The pieces without those at either end that say nothing. -/
def trimTrivial (pieces : List (List Char)) : List (List Char) :=
  dropTrivialTail (pieces.dropWhile isTrivial)

/-- The path relative to a directory whose components it starts with. -/
def relativeTo? (path base : String) : Option String :=
  let (front, body) := lead path.toList
  let bare (pieces : List (List Char)) := String.ofList (Text.join ['/'] (trimTrivial pieces))
  match components base, front with
  | [], _ => some (String.ofList (write front (dropTrivialTail body)))
  | c :: cs, some first => if first = c then (dropComponents cs body).map bare else none
  | cs, none => (dropComponents cs body).map bare

/-- Does the path have one of the extensions, in any ASCII letter case? -/
def hasExtension (extensions : List String) (path : String) : Bool :=
  match extension? path with
  | some extension => extensions.any fun e => sameName e extension
  | none => false

/-- An absolute right side replaces the left. -/
theorem join_absolute {left right : String} (h : isAbsolute right = true) :
    join left right = right := by
  simp [join, h]

end Path

end CodeIndex
