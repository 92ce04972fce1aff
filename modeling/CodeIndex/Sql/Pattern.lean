import CodeIndex.Text.Blank
import CodeIndex.Text.WordChar

/-!
# Pieces of SQL text

Recognisers for the pieces that definitions are made of.  Each takes the text
still to be read and gives the rest after the piece, or nothing when the text does
not start with one.

Keywords are matched in any letter case.  Case here is simple case folding, so the
Kelvin sign stands for `K` and the long s for `S`.
-/

namespace CodeIndex.Sql

open Text

/-- Does `c` fold to the upper-case keyword letter `letter`? -/
def foldsTo (letter c : Char) : Bool :=
  c.toUpper == letter || (letter == 'K' && c.toNat == 0x212a) ||
    (letter == 'S' && c.toNat == 0x17f)

/-- The rest after a keyword, given in upper case. -/
def afterLetters : List Char → List Char → Option (List Char)
  | [], cs => some cs
  | _ :: _, [] => none
  | letter :: more, c :: rest => if foldsTo letter c then afterLetters more rest else none

/-- The rest after a keyword, given in upper case. -/
def keyword (word : String) (cs : List Char) : Option (List Char) :=
  afterLetters word.toList cs

/-- The rest after the first of several keywords that is there. -/
def anyKeyword (words : List String) (cs : List Char) : Option (List Char) :=
  words.findSome? fun word => keyword word cs

/-- The rest after at least one blank. -/
def blanks : List Char → Option (List Char)
  | [] => none
  | c :: rest => if isBlank c then some (trimStart rest) else none

/-- The rest after one given character. -/
def symbol (sym : Char) : List Char → Option (List Char)
  | [] => none
  | c :: rest => if c = sym then some rest else none

/-- The rest after one character of `marks`, or the text itself when there is none. -/
def optionalMark (marks : List Char) : List Char → List Char
  | [] => []
  | c :: rest => if marks.contains c then rest else c :: rest

/-- A non-empty run of word characters and the rest. -/
def word (cs : List Char) : Option (List Char × List Char) :=
  match cs.takeWhile isWordChar with
  | [] => none
  | run => some (run, cs.dropWhile isWordChar)

/-- May a word start after `before`?  It may not continue another word. -/
def isBoundary : Option Char → Bool
  | none => true
  | some c => !isWordChar c

/-- The first place at a word boundary where `piece` is there: the text before it and what
`piece` gives.  `before` is the character in front of the text. -/
def search {α : Type} (piece : List Char → Option α) (before : Option Char) :
    List Char → Option (List Char × α)
  | [] => none
  | c :: rest =>
    match (if isBoundary before then piece (c :: rest) else none) with
    | some found => some ([], found)
    | none => (search piece (some c) rest).map fun (skipped, found) => (c :: skipped, found)

/-- What `piece` gives at the first place where it is there. -/
def searchFirst {α : Type} (piece : List Char → Option α) (cs : List Char) : Option α :=
  (search piece none cs).map Prod.snd

/-- Is a piece there somewhere? -/
def occurs {α : Type} (piece : List Char → Option α) (cs : List Char) : Bool :=
  (search piece none cs).isSome

/-- The content of a single-quoted literal whose opening quote was read, and the rest after
the closing quote.  A backslash takes the next character with it, and a doubled quote
belongs to the content if the literal can still be closed after it. -/
def singleQuoted : List Char → Option (List Char × List Char)
  | [] => none
  | '\\' :: c :: rest => (singleQuoted rest).map fun (body, after) => ('\\' :: c :: body, after)
  | ['\\'] => none
  | '\'' :: '\'' :: rest =>
    match singleQuoted rest with
    | some (body, after) => some ('\'' :: '\'' :: body, after)
    | none => some ([], '\'' :: rest)
  | '\'' :: rest => some ([], rest)
  | c :: rest => (singleQuoted rest).map fun (body, after) => (c :: body, after)

/-- The content of a double-quoted literal whose opening quote was read, and the rest. -/
def doubleQuoted : List Char → Option (List Char × List Char)
  | [] => none
  | '\\' :: c :: rest => (doubleQuoted rest).map fun (body, after) => ('\\' :: c :: body, after)
  | ['\\'] => none
  | '"' :: rest => some ([], rest)
  | c :: rest => (doubleQuoted rest).map fun (body, after) => (c :: body, after)

/-- The text up to the next closing parenthesis and the rest after it. -/
def upToParen : List Char → Option (List Char × List Char)
  | [] => none
  | c :: rest =>
    if c = ')' then some ([], rest)
    else (upToParen rest).map fun (body, after) => (c :: body, after)

end CodeIndex.Sql
