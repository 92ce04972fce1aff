import CodeIndex.Schema
import CodeIndex.Sql.Pattern
import CodeIndex.Text.Slice

/-!
# Column definitions

A part of a table body is a column when it starts with an identifier and a type and
its first word is not reserved for constraints.  A quoted first word is always an
identifier.
-/

namespace CodeIndex.Sql

open Text

/-- First words that mark a part as a constraint. -/
def reservedLeaders : List String :=
  ["PRIMARY", "KEY", "INDEX", "UNIQUE", "FULLTEXT", "CONSTRAINT", "FOREIGN", "CHECK"]

/-- Is the first word of a part reserved? -/
def isReservedLeader (leader : List Char) : Bool :=
  !(startsWith ['\x60'] leader || startsWith ['"'] leader) &&
    reservedLeaders.any fun word => sameIgnoringCase word.toList leader

/-- The rest after blanks and one of the words that belong to a numeric type. -/
def typeWord (cs : List Char) : Option (List Char) :=
  (blanks cs).bind (anyKeyword ["UNSIGNED", "SIGNED", "ZEROFILL"])

/-- The rest after any number of type words, at most `fuel`. -/
def typeWords : Nat → List Char → List Char
  | 0, cs => cs
  | fuel + 1, cs =>
    match typeWord cs with
    | some rest => typeWords fuel rest
    | none => cs

/-- The rest after a type: a word, an optional list in parentheses, and type words. -/
def afterType (cs : List Char) : Option (List Char) := do
  let (_, rest) ← word cs
  let list := do
    let (_, after) ← upToParen (← symbol '(' (trimStart rest))
    some after
  let rest := list.getD rest
  some (typeWords rest.length rest)

/-- The name of a column, the text of its type and the rest of the part. -/
def columnHead (part : List Char) : Option (List Char × List Char × List Char) := do
  let (name, rest) ← word (optionalMark ['\x60', '"'] part)
  let typed ← blanks (optionalMark ['\x60', '"'] rest)
  let rest ← afterType typed
  some (name, typed.take (typed.length - rest.length), rest)

/-- A comment of a column and the rest after it. -/
def columnComment (cs : List Char) : Option (List Char × List Char) := do
  singleQuoted (← symbol '\'' (← blanks (← keyword "COMMENT" cs)))

/-- `NOT NULL` as whole words. -/
def notNull (cs : List Char) : Option Unit := do
  let rest ← keyword "NULL" (← blanks (← keyword "NOT" cs))
  if isBoundary rest.head? then some () else none

/-- `AUTO_INCREMENT` as a whole word. -/
def autoIncrement (cs : List Char) : Option Unit := do
  let rest ← keyword "AUTO_INCREMENT" cs
  if isBoundary rest.head? then some () else none

/-- The value after `DEFAULT`: a literal, a list in parentheses, or the characters up to a
blank or a comma. -/
def defaultText (cs : List Char) : Option (List Char) :=
  let single := do
    let (body, _) ← singleQuoted (← symbol '\'' cs)
    some ('\'' :: body ++ ['\''])
  let double := do
    let (body, _) ← doubleQuoted (← symbol '"' cs)
    some ('"' :: body ++ ['"'])
  let list := do
    let (body, _) ← upToParen (← symbol '(' cs)
    some ('(' :: body ++ [')'])
  let bare :=
    match cs.takeWhile fun c => !isBlank c && c ≠ ',' with
    | [] => none
    | run => some run
  single.or (double.or (list.or bare))

/-- A default and its value. -/
def columnDefault (cs : List Char) : Option (List Char) := do
  defaultText (← blanks (← keyword "DEFAULT" cs))

/-- Read a part of a table body as a column.  The comment is taken out before the flags and
the default are looked for. -/
def parseColumn (part : List Char) : Option Column := do
  let leader ← (words part).head?
  if isReservedLeader leader then none
  else
    let (name, type, rest) ← columnHead part
    let comment := search columnComment none rest
    let attributes :=
      match comment with
      | some (before, _, after) => before ++ after
      | none => rest
    some {
      name := String.ofList name
      type := String.ofList (join [' '] (words type))
      nullable := !occurs notNull attributes
      default := (searchFirst columnDefault attributes).map String.ofList
      autoIncrement := occurs autoIncrement attributes
      comment := comment.map fun (_, body, _) => String.ofList body }

end CodeIndex.Sql
