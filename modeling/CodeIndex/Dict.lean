/-!
# Dictionaries in key order

A finite map from strings, kept as its list of entries in strictly ascending key
order, so that two dictionaries with the same entries are equal and listing one
needs no sorting.

* `get?_insert_self`, `get?_insert_of_ne` : writing one key is read back there and nowhere else.
* `ofList_entries` : a dictionary is rebuilt from its own entries.
-/

namespace CodeIndex

/-- Put `value` at `key`, replacing what stood there; the order of keys is kept. -/
def insertEntry {α : Type} (key : String) (value : α) : List (String × α) → List (String × α)
  | [] => [(key, value)]
  | (k, v) :: rest =>
    if key < k then (key, value) :: (k, v) :: rest
    else if key = k then (key, value) :: rest
    else (k, v) :: insertEntry key value rest

/-- The value at `key` in a list of entries. -/
def findEntry {α : Type} (key : String) : List (String × α) → Option α
  | [] => none
  | (k, v) :: rest => if key = k then some v else findEntry key rest

/-- Entries in strictly ascending key order. -/
def KeysAscend {α : Type} (entries : List (String × α)) : Prop :=
  entries.Pairwise fun a b => a.1 < b.1

/-- An entry after an insertion is the inserted one or was there before. -/
theorem mem_insertEntry {α : Type} {key : String} {value : α} {e : String × α} :
    ∀ {entries : List (String × α)}, e ∈ insertEntry key value entries →
      e = (key, value) ∨ e ∈ entries
  | [], h => by simpa [insertEntry] using h
  | (k, v) :: rest, h => by
    unfold insertEntry at h
    split at h
    · simpa using h
    · split at h
      · rcases List.mem_cons.mp h with h | h
        · exact Or.inl h
        · exact Or.inr (List.mem_cons_of_mem _ h)
      · rcases List.mem_cons.mp h with h | h
        · exact Or.inr (h ▸ List.mem_cons_self)
        · exact (mem_insertEntry h).imp id (List.mem_cons_of_mem _)

/-- Insertion keeps the keys ascending. -/
theorem keysAscend_insertEntry {α : Type} {key : String} {value : α} :
    ∀ {entries : List (String × α)}, KeysAscend entries →
      KeysAscend (insertEntry key value entries)
  | [], _ => List.pairwise_singleton _ _
  | (k, v) :: rest, h => by
    obtain ⟨hhead, htail⟩ := List.pairwise_cons.mp h
    unfold insertEntry
    split
    · rename_i hlt
      refine List.pairwise_cons.mpr ⟨?_, h⟩
      intro e he
      rcases List.mem_cons.mp he with rfl | he
      · exact hlt
      · exact String.lt_trans hlt (hhead e he)
    · rename_i hlt
      split
      · rename_i heq
        exact List.pairwise_cons.mpr ⟨fun e he => heq ▸ hhead e he, htail⟩
      · rename_i hne
        have hgt : k < key := by
          rcases String.not_lt.mp hlt with hle
          rcases Decidable.em (k < key) with hk | hk
          · exact hk
          · exact absurd (String.le_antisymm (String.not_lt.mp hk) hle) hne
        refine List.pairwise_cons.mpr ⟨?_, keysAscend_insertEntry htail⟩
        intro e he
        rcases mem_insertEntry he with rfl | he
        · exact hgt
        · exact hhead e he

/-- A finite map from strings, listed in ascending key order. -/
structure Dict (α : Type) where
  /-- The entries, each key once. -/
  entries : List (String × α)
  /-- Keys ascend strictly. -/
  ascending : KeysAscend entries
  deriving DecidableEq

namespace Dict

variable {α : Type}

/-- The dictionary without entries. -/
def empty : Dict α := ⟨[], List.Pairwise.nil⟩

instance : Inhabited (Dict α) := ⟨empty⟩

/-- The value at a key. -/
def get? (d : Dict α) (key : String) : Option α := findEntry key d.entries

/-- Write a value at a key; the last write wins. -/
def insert (d : Dict α) (key : String) (value : α) : Dict α :=
  ⟨insertEntry key value d.entries, keysAscend_insertEntry d.ascending⟩

/-- The keys in ascending order. -/
def keys (d : Dict α) : List String := d.entries.map Prod.fst

/-- The values in the order of their keys. -/
def values (d : Dict α) : List α := d.entries.map Prod.snd

/-- The number of keys. -/
def size (d : Dict α) : Nat := d.entries.length

/-- Write a list of pairs one after the other. -/
def ofList (pairs : List (String × α)) : Dict α :=
  pairs.foldl (fun d (key, value) => d.insert key value) empty

end Dict

/-- The inserted value is found under its key. -/
theorem findEntry_insertEntry_self {α : Type} (key : String) (value : α) :
    ∀ entries : List (String × α), findEntry key (insertEntry key value entries) = some value
  | [] => by simp [insertEntry, findEntry]
  | (k, v) :: rest => by
    unfold insertEntry
    split
    · simp [findEntry]
    · split
      · simp [findEntry]
      · rename_i hne
        simp [findEntry, hne, findEntry_insertEntry_self key value rest]

/-- Insertion changes nothing under another key. -/
theorem findEntry_insertEntry_of_ne {α : Type} {key other : String} (h : other ≠ key)
    (value : α) : ∀ entries : List (String × α),
      findEntry other (insertEntry key value entries) = findEntry other entries
  | [] => by simp [insertEntry, findEntry, h]
  | (k, v) :: rest => by
    unfold insertEntry
    split
    · simp [findEntry, h]
    · split
      · rename_i heq
        subst heq
        simp [findEntry, h]
      · simp [findEntry, findEntry_insertEntry_of_ne h value rest]

/-- A key above all others is written at the end. -/
theorem insertEntry_eq_append {α : Type} {key : String} {value : α} :
    ∀ {entries : List (String × α)}, (∀ e ∈ entries, e.1 < key) →
      insertEntry key value entries = entries ++ [(key, value)]
  | [], _ => rfl
  | (k, v) :: rest, h => by
    have hk : k < key := h (k, v) List.mem_cons_self
    have hnot : ¬ key < k := fun hlt => String.lt_irrefl _ (String.lt_trans hk hlt)
    have hne : key ≠ k := fun heq => String.lt_irrefl key (heq ▸ hk)
    simp [insertEntry, hnot, hne,
      insertEntry_eq_append fun e he => h e (List.mem_cons_of_mem _ he)]

namespace Dict

variable {α : Type}

/-- What was written at a key is read there. -/
theorem get?_insert_self (d : Dict α) (key : String) (value : α) :
    (d.insert key value).get? key = some value :=
  findEntry_insertEntry_self key value d.entries

/-- Writing at one key does not change what stands at another. -/
theorem get?_insert_of_ne (d : Dict α) {key other : String} (h : other ≠ key) (value : α) :
    (d.insert key value).get? other = d.get? other :=
  findEntry_insertEntry_of_ne h value d.entries

/-- Pairs with ascending keys are inserted behind what is there. -/
theorem foldl_insert_entries (pairs : List (String × α)) :
    ∀ d : Dict α, KeysAscend (d.entries ++ pairs) →
      (pairs.foldl (fun d (key, value) => d.insert key value) d).entries = d.entries ++ pairs := by
  induction pairs with
  | nil => intro d _; simp
  | cons p rest ih =>
    obtain ⟨key, value⟩ := p
    intro d h
    have hlast : ∀ e ∈ d.entries, e.1 < key := by
      intro e he
      exact (List.pairwise_append.mp h).2.2 e he (key, value) List.mem_cons_self
    have hentries : (d.insert key value).entries = d.entries ++ [(key, value)] :=
      insertEntry_eq_append hlast
    rw [List.foldl_cons, ih (d.insert key value) (by rw [hentries]; simpa using h), hentries]
    simp

/-- A dictionary is rebuilt from its own entries. -/
theorem ofList_entries (d : Dict α) : ofList d.entries = d := by
  have h : (ofList d.entries).entries = d.entries := by
    simpa [ofList, empty] using
      foldl_insert_entries d.entries empty (by simpa [empty] using d.ascending)
  cases d with
  | mk entries ascending =>
    generalize hd : ofList entries = d' at h ⊢
    cases d' with
    | mk entries' ascending' =>
      cases h
      rfl

end Dict

end CodeIndex
