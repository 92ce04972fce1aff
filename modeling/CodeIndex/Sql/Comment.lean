import CodeIndex.Text.Slice

/-!
# Comments of a script

Block comments run from `/*` to the next `*/`; one that is never closed is text.
Line comments fill a line from its start, after blanks; they take the blank lines
directly in front of them along and leave their own line end.
-/

namespace CodeIndex.Sql

open Text

/-- Remove block comments; `inside` says whether one is open. -/
def dropBlocksFrom (inside : Bool) : List Char → List Char
  | [] => []
  | '*' :: '/' :: rest =>
    if inside then dropBlocksFrom false rest else '*' :: dropBlocksFrom false ('/' :: rest)
  | '/' :: '*' :: rest =>
    if inside then dropBlocksFrom true ('*' :: rest)
    else if contains ['*', '/'] rest then dropBlocksFrom true rest
    else '/' :: dropBlocksFrom false ('*' :: rest)
  | c :: rest => if inside then dropBlocksFrom true rest else c :: dropBlocksFrom false rest

/-- Remove the block comments of a script. -/
def dropBlocks (cs : List Char) : List Char := dropBlocksFrom false cs

/-- Where the removal of line comments stands. -/
inductive LineState where
  /-- At the start of a line. -/
  | start
  /-- Later in a line that is kept. -/
  | within
  /-- In the blanks in front of a comment. -/
  | lead
  /-- In a comment. -/
  | comment
  deriving DecidableEq, Repr

/-- Does a comment open here, after blanks? -/
def opensLineComment (cs : List Char) : Bool := startsWith ['-', '-'] (trimStart cs)

/-- Remove line comments. -/
def dropLinesFrom (state : LineState) : List Char → List Char
  | [] => []
  | c :: rest =>
    let keep := c :: dropLinesFrom (if c = '\n' then .start else .within) rest
    match state with
    | .comment => if c = '\n' then keep else dropLinesFrom .comment rest
    | .lead => dropLinesFrom (if isBlank c then .lead else .comment) rest
    | .start =>
      if opensLineComment (c :: rest) then
        dropLinesFrom (if isBlank c then .lead else .comment) rest
      else keep
    | .within => keep

/-- Remove the line comments of a script. -/
def dropLines (cs : List Char) : List Char := dropLinesFrom .start cs

/-- A script without its comments. -/
def dropComments (cs : List Char) : List Char := dropLines (dropBlocks cs)

end CodeIndex.Sql
