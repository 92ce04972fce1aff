import CodeIndex.Decimal.Double

/-!
# JSON values

A value as it is written: an object keeps its entries in the order of the text, repeated
keys included.  `Json.canonical` gives every object one entry per key, in key order, the
last entry of a key being the one that counts.
-/

namespace CodeIndex

/-- A number.  Integers stay exact while they fit a 64-bit word, unsigned or signed;
`negative n` is the integer below zero of absolute value `n`. -/
inductive Json.Number where
  | natural (n : Nat)
  | negative (n : Nat)
  | real (isNegative : Bool) (value : Decimal.Double)
  deriving DecidableEq, Repr, Inhabited

/-- A JSON value.  `invalid` is a piece of text that has the form of a value and denotes
none: a string with an unpaired surrogate, an object with such a key, or a number beyond all
bounds. -/
inductive Json where
  | null
  | bool (b : Bool)
  | number (n : Json.Number)
  | str (s : String)
  | arr (items : List Json)
  | obj (entries : List (String × Json))
  | invalid
  deriving Inhabited

namespace Json

/-- A natural number. -/
def nat (n : Nat) : Json := .number (.natural n)

/-- A string, or null. -/
def optional : Option String → Json
  | some s => .str s
  | none => .null

/-- A list of strings. -/
def strings (items : List String) : Json := .arr (items.map .str)

/-- Put a value at a key of entries in key order, replacing what stood there. -/
def putEntry (key : String) (value : Json) : List (String × Json) → List (String × Json)
  | [] => [(key, value)]
  | (k, v) :: rest =>
    if key < k then (key, value) :: (k, v) :: rest
    else if key = k then (key, value) :: rest
    else (k, v) :: putEntry key value rest

mutual

/-- Every object with its keys in order and the last entry of each. -/
def canonical : Json → Json
  | .arr items => .arr (canonicalItems items)
  | .obj entries => .obj (canonicalEntries [] entries)
  | j => j

/-- The canonical items of a list. -/
def canonicalItems : List Json → List Json
  | [] => []
  | item :: rest => canonical item :: canonicalItems rest

/-- The canonical entries, written one after the other over those already there. -/
def canonicalEntries (done : List (String × Json)) : List (String × Json) → List (String × Json)
  | [] => done
  | (key, value) :: rest => canonicalEntries (putEntry key (canonical value) done) rest

end

/-- The last entry of a key, when the value is an object. -/
def get? (key : String) : Json → Option Json
  | .obj entries => (entries.reverse.find? fun e => e.1 == key).map Prod.snd
  | _ => none

end Json

end CodeIndex
