import CodeIndex.Sql.Column
import CodeIndex.Sql.Comment
import CodeIndex.Sql.Key

/-!
# Scripts

A script is cut at every `CREATE TABLE` header, so that a statement which does not
parse cannot run on into the next one.  A statement is a header, a body in
parentheses that balance outside quotes, and options up to the semicolon.
-/

namespace CodeIndex.Sql

open Text

/-- Does a statement header start here, after the character `before`? -/
def isHeader (before : Option Char) (cs : List Char) : Bool :=
  isBoundary before &&
    match (keyword "CREATE" cs).bind blanks |>.bind (keyword "TABLE") with
    | some rest => isBoundary rest.head?
    | none => false

/-- The text before the first header, and the segments that start with one each. -/
def segmentsFrom (before : Option Char) : List Char → List Char × List (List Char)
  | [] => ([], [])
  | c :: rest =>
    let (lead, segments) := segmentsFrom (some c) rest
    if isHeader before (c :: rest) then ([], (c :: lead) :: segments)
    else (c :: lead, segments)

/-- The segments of a script. -/
def segments (cs : List Char) : List (List Char) := (segmentsFrom none cs).2

/-- May `c` stand in a table name? -/
def isTableNameChar (c : Char) : Bool :=
  !(c == '\x60' || c == '"' || c == ']' || c == '(' || isBlank c)

/-- The name of a table, without an opening quote or bracket, and the rest. -/
def tableName (cs : List Char) : Option (List Char × List Char) :=
  let named (rest : List Char) :=
    match rest.takeWhile isTableNameChar with
    | [] => none
    | name => some (name, rest.dropWhile isTableNameChar)
  (named (optionalMark ['\x60', '"', '['] cs)).or (named cs)

/-- The name of a table up to the parenthesis that opens its body, and the rest. -/
def namedBody (cs : List Char) : Option (List Char × List Char) := do
  let (name, rest) ← tableName cs
  let body ← symbol '(' (trimStart (optionalMark ['\x60', '"', ']'] rest))
  some (name, body)

/-- The head of a statement: the name of the table, and the text after the parenthesis that
opens its body. -/
def statementHead (cs : List Char) : Option (List Char × List Char) := do
  let rest ← blanks (← keyword "TABLE" (← blanks (← keyword "CREATE" cs)))
  let unlessExists := do
    blanks (← keyword "EXISTS" (← blanks (← keyword "NOT" (← blanks (← keyword "IF" rest)))))
  (unlessExists.bind namedBody).or (namedBody rest)

/-- A word after optional blanks. -/
def optionWord (cs : List Char) : Option (List Char) := (word (trimStart cs)).map Prod.fst

/-- The rest after optional blanks and an optional equals sign. -/
def optionalEquals (cs : List Char) : List Char :=
  let rest := trimStart cs
  (symbol '=' rest).getD rest

/-- The storage engine after `ENGINE =`. -/
def engineOption (cs : List Char) : Option (List Char) := do
  optionWord (← symbol '=' (trimStart (← keyword "ENGINE" cs)))

/-- The character set after `CHARSET` or `CHARACTER SET`. -/
def charsetOption (cs : List Char) : Option (List Char) :=
  let short := keyword "CHARSET" cs
  let long := do keyword "SET" (← blanks (← keyword "CHARACTER" cs))
  (short.or long).bind fun rest => optionWord (optionalEquals rest)

/-- The comment of a table. -/
def commentOption (cs : List Char) : Option (List Char) := do
  let rest ← keyword "COMMENT" cs
  let (body, _) ← singleQuoted (← symbol '\'' (trimStart (optionalEquals rest)))
  some body

/-- The keys among the parts of a body, in order. -/
def bodyKeys (parts : List (List Char)) : List Key := parts.filterMap parseKey

/-- The columns among the parts of a body, in order; a part that is a key is no column. -/
def bodyColumns (parts : List (List Char)) : List Column :=
  parts.filterMap fun part => if (parseKey part).isSome then none else parseColumn part

/-- Read one segment as a statement. -/
def parseStatement (placeholder : String) (segment : List Char) : Option Table := do
  let (name, rest) ← statementHead segment
  let (body, tail) ← closingParen rest
  let options := statementEnd tail
  let parts := splitTopLevel body
  let qualifiedName := String.ofList name
  some {
    qualifiedName
    shortName := stripTablePrefix qualifiedName placeholder
    columns := bodyColumns parts
    keys := bodyKeys parts
    engine := (searchFirst engineOption options).map String.ofList
    charset := (searchFirst charsetOption options).map String.ofList
    comment := (searchFirst commentOption options).map String.ofList }

/-- Every well-formed `CREATE TABLE` of a script, in order. -/
def parseTables (placeholder : String) (script : String) : List Table :=
  (segments (dropComments script.toList)).filterMap (parseStatement placeholder)

end CodeIndex.Sql
