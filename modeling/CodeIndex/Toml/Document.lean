import CodeIndex.Toml.Scalar

/-!
# Settings texts

A settings text is read line by line: headers open tables, and each key is written into
the table that was opened last.  A line that does not fit makes the whole text unreadable,
and so does a key of too many parts or a value with brackets in one another too deep.
-/

namespace CodeIndex.Toml

open Text

/-- May the character stand in a key without quotes? -/
def isKeyChar (c : Char) : Bool := c.isAlphanum || c == '_' || c == '-'

/-- One part of a key. -/
def simpleKey? (cs : List Char) : Option (List Char × List Char) :=
  match cs with
  | '"' :: _ => lineString? cs
  | '\'' :: _ => lineString? cs
  | _ =>
    match cs.takeWhile isKeyChar with
    | [] => none
    | key => some (key, cs.dropWhile isKeyChar)

/-- A key: parts with dots between, and blanks around each.  The parts are never empty. -/
def key? : Nat → List Char → Option (List String × List Char)
  | 0, _ => none
  | fuel + 1, cs => do
    let (part, rest) ← simpleKey? (skipInline cs)
    let name := String.ofList part
    match skipInline rest with
    | '.' :: rest =>
      let (parts, rest) ← key? fuel rest
      some (name :: parts, rest)
    | rest => some ([name], rest)

/-- How many parts a key may have, and how many brackets of a value may stand in one
another. -/
def depthLimit : Nat := 79

/-- A key with the way to it and its own name. -/
def keyWay? (cs : List Char) : Option ((List String × String) × List Char) := do
  let (parts, rest) ← key? (cs.length + 1) cs
  if parts.length > depthLimit then none
  match parts.reverse with
  | name :: way => some ((way.reverse, name), rest)
  | [] => none

/-- The rest after a comment, up to the line end. -/
def comment? : List Char → Option (List Char)
  | '#' :: rest =>
    let rest := rest.dropWhile isPlain
    if rest.isEmpty || (lineEnd? rest).isSome then some rest else none
  | _ => none

/-- Skip blanks, line ends and comments between the items of a list. -/
def skipBetween : Nat → List Char → Option (List Char)
  | 0, _ => none
  | fuel + 1, cs =>
    match skipLines cs with
    | '#' :: rest => do skipBetween fuel (← lineEnd? (← comment? ('#' :: rest)))
    | rest => some rest

mutual

/-- A value with at most `room` brackets in one another.  Each step uses one unit of fuel. -/
def value? : Nat → Nat → List Char → Option (Toml × List Char)
  | 0, _, _ => none
  | fuel + 1, room, cs =>
    match cs, room with
    | '[' :: rest, room + 1 => (items? fuel room rest).map fun (items, rest) => (.arr items, rest)
    | '\x7b' :: rest, room + 1 =>
      match skipInline rest with
      | '\x7d' :: rest => some (.table .inline [], rest)
      | rest =>
        (pairs? fuel room [] rest).map fun (entries, rest) => (.table .inline entries, rest)
    | cs, _ => scalar? cs

/-- The items of a list up to its closing bracket. -/
def items? : Nat → Nat → List Char → Option (List Toml × List Char)
  | 0, _, _ => none
  | fuel + 1, room, cs => do
    match ← skipBetween (cs.length + 1) cs with
    | ']' :: rest => some ([], rest)
    | cs =>
      let (item, rest) ← value? fuel room cs
      match ← skipBetween (rest.length + 1) rest with
      | ',' :: rest =>
        let (items, rest) ← items? fuel room rest
        some (item :: items, rest)
      | ']' :: rest => some ([item], rest)
      | _ => none

/-- The pairs of a table in braces, at least one, up to its closing brace. -/
def pairs? : Nat → Nat → List (String × Toml) → List Char →
    Option (List (String × Toml) × List Char)
  | 0, _, _, _ => none
  | fuel + 1, room, entries, cs => do
    let ((way, name), rest) ← keyWay? cs
    let rest ← mark? '=' rest
    let (value, rest) ← value? fuel room (skipInline rest)
    let (_, entries) ← assign way name value .inline entries
    match skipInline rest with
    | ',' :: rest => pairs? fuel room entries rest
    | '\x7d' :: rest => some (entries, rest)
    | _ => none

end

/-- What a text has been read into: all entries, and the way to the table that keys are
written into. -/
structure Reading where
  entries : List (String × Toml) := []
  way : List String := []
  deriving Inhabited

namespace Reading

/-- Apply a change to the table of all entries. -/
def change (r : Reading) (c : Change) : Option Reading :=
  (c .header r.entries).map fun (_, entries) => { r with entries }

/-- Write a key into the open table. -/
def set (r : Reading) (way : List String) (key : String) (value : Toml) : Option Reading :=
  r.change (changeAt .implied r.way (assign way key value))

end Reading

/-- The end of a line: blanks, an optional comment, and the line end or the end of the
text. -/
def restOfLine? (cs : List Char) : Option (List Char) := do
  let cs := skipInline cs
  let cs := (comment? cs).getD cs
  if cs.isEmpty then some [] else lineEnd? cs

/-- Read the header of a list element after its two brackets. -/
def elementHeader (r : Reading) (cs : List Char) : Option (Reading × List Char) := do
  let ((way, name), rest) ← keyWay? cs
  let rest ← restOfLine? (← mark? ']' (← mark? ']' rest))
  let r ← r.change (openElement way name)
  some ({ r with way := way ++ [name] }, rest)

/-- Read the header of a table after its bracket. -/
def tableHeader (r : Reading) (cs : List Char) : Option (Reading × List Char) := do
  let ((way, name), rest) ← keyWay? cs
  let rest ← restOfLine? (← mark? ']' rest)
  let r ← r.change (openTable way name)
  some ({ r with way := way ++ [name] }, rest)

/-- Read a key and its value. -/
def keyLine (r : Reading) (cs : List Char) : Option (Reading × List Char) := do
  let ((way, name), rest) ← keyWay? cs
  let rest := skipInline (← mark? '=' rest)
  let (value, rest) ← value? (rest.length + 1) depthLimit rest
  let rest ← restOfLine? rest
  some (← r.set way name value, rest)

/-- Read one line that is not empty. -/
def line? (r : Reading) (cs : List Char) : Option (Reading × List Char) :=
  match cs with
  | '#' :: _ => (restOfLine? cs).map (r, ·)
  | '[' :: '[' :: rest => elementHeader r rest
  | '[' :: rest => tableHeader r rest
  | _ =>
    match lineEnd? cs with
    | some rest => some (r, rest)
    | none => keyLine r cs

/-- Read the lines of a text. -/
def lines? : Nat → Reading → List Char → Option Reading
  | 0, _, _ => none
  | fuel + 1, r, cs =>
    match skipInline cs with
    | [] => some r
    | cs => do
      let (r, rest) ← line? r cs
      lines? fuel r rest

/-- The text without a byte order mark in front. -/
def dropMark : List Char → List Char
  | c :: rest => if c.toNat = 0xfeff then rest else c :: rest
  | [] => []

/-- The table of a settings text. -/
def parse? (text : String) : Option Toml :=
  let cs := dropMark text.toList
  (lines? (cs.length + 1) {} cs).map fun r => .table .header r.entries

end CodeIndex.Toml
