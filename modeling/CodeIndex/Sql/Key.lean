import CodeIndex.Schema
import CodeIndex.Sql.Pattern
import CodeIndex.Sql.Quote

/-!
# Key definitions

A part of a table body is a key when it starts with a primary, unique, full-text or
plain key head followed by a parenthesised list.  The list runs to the last closing
parenthesis of the part.
-/

namespace CodeIndex.Sql

open Text

/-- The non-empty text between an opening parenthesis and the last closing one. -/
def parenBody (cs : List Char) : Option (List Char) := do
  let inner ← symbol '(' cs
  let (body, _) ← splitLast? ')' inner
  if body.isEmpty then none else some body

/-- The text without a trailing sort order and the blanks before it. -/
def dropSortOrder (cs : List Char) : List Char :=
  let rev := cs.reverse
  match (anyKeyword ["CSA", "CSED"] rev).bind blanks with
  | some rest => rest.reverse
  | none => cs

/-- The rest of a reversed text after a trailing size in parentheses. -/
def reversedSize (rev : List Char) : Option (List Char) := do
  let digits := trimStart (← symbol ')' rev)
  if (digits.takeWhile isDecimal).isEmpty then none
  else
    let open' ← symbol '(' (trimStart (digits.dropWhile isDecimal))
    some (trimStart open')

/-- The text without a trailing size in parentheses and the blanks before it. -/
def dropSize (cs : List Char) : List Char :=
  match reversedSize cs.reverse with
  | some rest => rest.reverse
  | none => cs

/-- Is `c` one of the three quotes of an identifier? -/
def isIdentifierQuote (c : Char) : Bool := c == '\x60' || c == '"' || c == '\''

/-- A column of a key: without sort order, size, outer blanks and quotes. -/
def keyColumn (cs : List Char) : List Char :=
  trimMatches isIdentifierQuote (trim (dropSize (dropSortOrder cs)))

/-- The columns a key covers, without empty ones. -/
def keyColumns (list : List Char) : List String :=
  (((splitTopLevel list).map keyColumn).filter (!·.isEmpty)).map String.ofList

/-- The rest after an optional `CONSTRAINT <name>`. -/
def afterConstraint (cs : List Char) : List Char :=
  let group := do
    let name ← blanks (← keyword "CONSTRAINT" cs)
    let rest := name.dropWhile (!isBlank ·)
    if rest.length = name.length then none else blanks rest
  group.getD cs

/-- A primary key: its head, an optional index type and the list. -/
def primaryKey (part : List Char) : Option Key := do
  let rest := trimStart (← keyword "KEY" (← blanks (← keyword "PRIMARY" (afterConstraint part))))
  let afterUsing := do
    let (_, after) ← word (← blanks (← keyword "USING" rest))
    some (trimStart after)
  let body ← parenBody (afterUsing.getD rest)
  some { name := "PRIMARY", kind := .primary, columns := keyColumns body }

/-- An optional name in optional quotes and the list of a key. -/
def keyTail (cs : List Char) : Option (Option (List Char) × List Char) :=
  let rest := trimStart cs
  let named := do
    let (name, after) ← word (optionalMark ['\x60', '"'] rest)
    let body ← parenBody (trimStart (optionalMark ['\x60', '"'] after))
    some (some name, body)
  named.or ((parenBody rest).map fun body => (none, body))

/-- A key of the given kind from its name and list; without a name it is called after its
first column. -/
def keyOf (kind : KeyKind) (tail : Option (List Char) × List Char) : Key :=
  let columns := keyColumns tail.2
  let name := (tail.1.map String.ofList).getD (columns.head?.getD "")
  { name, kind, columns }

/-- The tail of a key after an optional `KEY` or `INDEX`. -/
def optionalKeyTail (cs : List Char) : Option (Option (List Char) × List Char) :=
  (((blanks cs).bind (anyKeyword ["KEY", "INDEX"])).bind keyTail).or (keyTail cs)

/-- A unique key. -/
def uniqueKey (part : List Char) : Option Key := do
  let tail ← optionalKeyTail (← keyword "UNIQUE" (afterConstraint part))
  some (keyOf .unique tail)

/-- A full-text key. -/
def fulltextKey (part : List Char) : Option Key := do
  let tail ← optionalKeyTail (← keyword "FULLTEXT" part)
  some (keyOf .fulltext tail)

/-- A plain key. -/
def plainKey (part : List Char) : Option Key := do
  let tail ← keyTail (← blanks (← anyKeyword ["KEY", "INDEX"] part))
  some (keyOf .index tail)

/-- Read a part of a table body as a key. -/
def parseKey (part : List Char) : Option Key :=
  (primaryKey part).or ((uniqueKey part).or ((fulltextKey part).or (plainKey part)))

end CodeIndex.Sql
