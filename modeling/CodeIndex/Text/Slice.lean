import CodeIndex.Text.Blank

/-!
# Cutting texts

Finding, removing and splitting over lists of characters.  Text is kept as
`String` in records and handled as `List Char` here, where recursion on the data
is available.

* `stripAll_of_stripStart_eq_none` : removing a leading word that is not there changes nothing.
-/

namespace CodeIndex.Text

/-- The text after a leading `word`, when it starts with it. -/
def stripStart? (word : List Char) (cs : List Char) : Option (List Char) :=
  word.isPrefixOf? cs

/-- The text before a trailing `word`, when it ends with it. -/
def stripEnd? (word : List Char) (cs : List Char) : Option (List Char) :=
  word.isSuffixOf? cs

/-- Does the text start with `word`? -/
def startsWith (word cs : List Char) : Bool := word.isPrefixOf cs

/-- Does the text end with `word`? -/
def endsWith (word cs : List Char) : Bool := word.isSuffixOf cs

/-- Does `word` occur somewhere in the text? -/
def contains (word : List Char) : List Char → Bool
  | [] => word.isEmpty
  | c :: rest => startsWith word (c :: rest) || contains word rest

/-- Remove leading copies of `word`, at most `fuel` of them. -/
def stripAllFrom (word : List Char) : Nat → List Char → List Char
  | 0, cs => cs
  | fuel + 1, cs =>
    match stripStart? word cs with
    | some rest => stripAllFrom word fuel rest
    | none => cs

/-- Remove every leading copy of a non-empty `word`; the empty word removes nothing. -/
def stripAll (word cs : List Char) : List Char :=
  if word.isEmpty then cs else stripAllFrom word cs.length cs

/-- Remove every trailing copy of a non-empty `word`. -/
def stripAllEnd (word cs : List Char) : List Char :=
  (stripAll word.reverse cs.reverse).reverse

/-- Replace each character by its image. -/
def replaceChar (old new : Char) (cs : List Char) : List Char :=
  cs.map fun c => if c = old then new else c

/-- Split at every occurrence of `sep`; the parts are one more than the occurrences. -/
def splitAt (sep : Char) : List Char → List (List Char)
  | [] => [[]]
  | c :: rest =>
    if c = sep then [] :: splitAt sep rest
    else
      match splitAt sep rest with
      | [] => [[c]]
      | part :: parts => (c :: part) :: parts

/-- The text before and after the first `sep`, if there is one. -/
def splitOnce? (sep : Char) : List Char → Option (List Char × List Char)
  | [] => none
  | c :: rest =>
    if c = sep then some ([], rest)
    else (splitOnce? sep rest).map fun (before, after) => (c :: before, after)

/-- The text before and after the last `sep`, if there is one. -/
def splitLast? (sep : Char) (cs : List Char) : Option (List Char × List Char) :=
  (splitOnce? sep cs.reverse).map fun (after, before) => (before.reverse, after.reverse)

/-- The lines of a text.  A line ends with a line feed, or a carriage return and a
line feed; the text after the last line end is a line only if it is not empty. -/
def lines : List Char → List (List Char)
  | [] => []
  | '\n' :: rest => [] :: lines rest
  | '\r' :: '\n' :: rest => [] :: lines rest
  | c :: rest =>
    match lines rest with
    | [] => [[c]]
    | line :: more => (c :: line) :: more

/-- The parts with `sep` between neighbours. -/
def join (sep : List Char) : List (List Char) → List Char
  | [] => []
  | [part] => part
  | part :: parts => part ++ sep ++ join sep parts

/-- The lower-case form of an ASCII letter; other characters stay. -/
def asciiLower (c : Char) : Char := c.toLower

/-- Equality up to the case of ASCII letters. -/
def sameIgnoringCase (a b : List Char) : Bool := a.map asciiLower == b.map asciiLower

/-- Removing a leading word that is not there changes nothing. -/
theorem stripAll_of_stripStart_eq_none {word cs : List Char}
    (h : stripStart? word cs = none) : stripAll word cs = cs := by
  unfold stripAll
  split
  · rfl
  · cases hl : cs.length with
    | zero => rfl
    | succ n => simp [stripAllFrom, h]

end CodeIndex.Text

namespace CodeIndex

/-- Trim a string at both ends. -/
def trimmed (s : String) : String := String.ofList (Text.trim s.toList)

/-- Equality of strings up to the case of ASCII letters. -/
def sameName (a b : String) : Bool := Text.sameIgnoringCase a.toList b.toList

/-- Does `word` occur in `s`? -/
def occursIn (word s : String) : Bool := Text.contains word.toList s.toList

/-- The strings with `sep` between neighbours. -/
def joinWith (sep : String) (parts : List String) : String :=
  String.ofList (Text.join sep.toList (parts.map String.toList))

end CodeIndex
