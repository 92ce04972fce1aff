import CodeIndex.Dict
import CodeIndex.Json.Basic

/-!
# Records in JSON

How the parts of a record are taken out of a value.  A record is an object, whose unknown
keys are passed over and whose known keys stand at most once, or a list of all its fields
in order.  A choice is a word, or an object with that word as its only key and null there.

* `fieldOf_of_notMem` : a key that does not occur is a missing field, not a failure.
-/

namespace CodeIndex.Json

/-- The value at a known key: a failure when the key is repeated, nothing when missing. -/
def fieldOf (entries : List (String × Json)) (key : String) : Option (Option Json) :=
  match entries.filter fun e => e.1 == key with
  | [] => some none
  | [(_, value)] => some (some value)
  | _ => none

/-- The fields of a record in the order of their keys. -/
def record (keys : List String) : Json → Option (List (Option Json))
  | .obj entries => keys.mapM (fieldOf entries)
  | .arr items => if items.length = keys.length then some (items.map some) else none
  | _ => none

/-- A string. -/
def asString? : Json → Option String
  | .str s => some s
  | _ => none

/-- A truth value. -/
def asBool? : Json → Option Bool
  | .bool b => some b
  | _ => none

/-- A list, each item by its reader. -/
def asList? {α : Type} (read : Json → Option α) : Json → Option (List α)
  | .arr items => items.mapM read
  | _ => none

/-- An object as a dictionary, each value by its reader; the last entry of a key counts. -/
def asDict? {α : Type} (read : Json → Option α) : Json → Option (Dict α)
  | .obj entries =>
    (entries.mapM fun e => (read e.2).map fun value => (e.1, value)).map Dict.ofList
  | _ => none

/-- A word among choices. -/
def asChoice? {α : Type} (choices : List (String × α)) : Json → Option α
  | .str s => choices.lookup s
  | .obj [(s, .null)] => choices.lookup s
  | _ => none

/-- A field that must be there. -/
def needed {α : Type} (read : Json → Option α) : Option Json → Option α
  | some j => read j
  | none => none

/-- A field that may be missing or null. -/
def allowed {α : Type} (read : Json → Option α) : Option Json → Option (Option α)
  | none => some none
  | some .null => some none
  | some j => (read j).map some

/-- A dictionary as an object in key order. -/
def ofDict {α : Type} (write : α → Json) (d : Dict α) : Json :=
  .obj (d.entries.map fun (key, value) => (key, write value))

/-- A key that does not occur is a missing field, not a failure. -/
theorem fieldOf_of_notMem {entries : List (String × Json)} {key : String}
    (h : ∀ e ∈ entries, e.1 ≠ key) : fieldOf entries key = some none := by
  have hnil : (entries.filter fun e => e.1 == key) = [] :=
    List.filter_eq_nil_iff.mpr fun e he => by simp [h e he]
  simp [fieldOf, hnil]

end CodeIndex.Json
