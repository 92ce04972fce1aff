/-!
# Settings values

A value of a settings text.  Numbers with a fraction and points in time are told apart
from the other kinds, and no setting takes one, so only their kind is kept.  A table
remembers how it came about, because that decides what may still be added to it.

* `insertNew_of_mem` : a key is written once.
-/

namespace CodeIndex

/-- How a table came about: written in braces; named by its own header; on the way to
another header; or on the way of a dotted key. -/
inductive Toml.Form where
  | inline
  | header
  | implied
  | dotted
  deriving DecidableEq, Repr, Inhabited

/-- A value of a settings text.  `tables` is a list of tables that grows by headers. -/
inductive Toml where
  | str (s : String)
  | int (n : Int)
  | real
  | bool (b : Bool)
  | time
  | arr (items : List Toml)
  | table (form : Toml.Form) (entries : List (String × Toml))
  | tables (elements : List Toml)
  deriving Inhabited

namespace Toml

/-- The value of a key among entries. -/
def find? (key : String) : List (String × Toml) → Option Toml
  | [] => none
  | (k, v) :: rest => if k = key then some v else find? key rest

/-- The entries with the value of a key replaced, or added at the end. -/
def put (key : String) (value : Toml) : List (String × Toml) → List (String × Toml)
  | [] => [(key, value)]
  | (k, v) :: rest => if k = key then (k, value) :: rest else (k, v) :: put key value rest

/-- Add an entry for a key that is not there yet. -/
def insertNew (key : String) (value : Toml) (entries : List (String × Toml)) :
    Option (List (String × Toml)) :=
  match find? key entries with
  | none => some (put key value entries)
  | some _ => none

/-- What may be done to the table at the end of a way: its form and its entries are given
and come back changed. -/
abbrev Change := Form → List (String × Toml) → Option (Form × List (String × Toml))

/-- A change to the last table of a list of tables. -/
def changeLast (change : Change) (elements : List Toml) : Option (List Toml) :=
  match elements.reverse with
  | .table form entries :: before =>
    (change form entries).map fun (form, entries) => (Toml.table form entries :: before).reverse
  | _ => none

/-- Follow a way of keys from a table and change the table at its end.  Tables that are
missing on the way are made in the given form; a list of tables is entered at its last
element; a dotted key may not pass through a table that has a header of its own. -/
def changeAt (made : Form) : List String → Change → Change
  | [], change => change
  | key :: way, change => fun form entries =>
    let next := changeAt made way change
    let found := match find? key entries with
      | none => (next made []).map fun (f, es) => Toml.table f es
      | some (.table .inline _) => none
      | some (.table inner es) =>
        if made == Form.dotted && inner == Form.header then none
        else (next inner es).map fun (f, es) => Toml.table f es
      | some (.tables elements) => (changeLast next elements).map Toml.tables
      | some _ => none
    found.map fun value => (form, put key value entries)

/-- Write a value at the end of a dotted key.  A key without a way belongs to the table
itself; a key with a way belongs to a table that dotted keys made. -/
def assign (way : List String) (key : String) (value : Toml) : Change :=
  changeAt .dotted way fun form entries =>
    if (form == Form.dotted) == way.isEmpty then none
    else (insertNew key value entries).map fun entries => (form, entries)

/-- Open the table of a header: a new one, or one that was so far only on the way to
another header. -/
def openTable (way : List String) (key : String) : Change :=
  changeAt .implied way fun form entries =>
    match find? key entries with
    | none => some (form, put key (.table .header []) entries)
    | some (.table .implied inner) => some (form, put key (.table .header inner) entries)
    | some _ => none

/-- Open a further table of a list of tables. -/
def openElement (way : List String) (key : String) : Change :=
  changeAt .implied way fun form entries =>
    match find? key entries with
    | none => some (form, put key (.tables [.table .header []]) entries)
    | some (.tables elements) =>
      some (form, put key (.tables (elements ++ [.table .header []])) entries)
    | some _ => none

/-- A key is written once. -/
theorem insertNew_of_mem {key : String} {value old : Toml} {entries : List (String × Toml)}
    (h : find? key entries = some old) : insertNew key value entries = none := by
  simp [insertNew, h]

end Toml

end CodeIndex
