import CodeIndex.Archive
import CodeIndex.Proofs.Archive.Json
import CodeIndex.Proofs.Archive.Timestamp

/-!
# Reading back a kept record

A writer and a reader of one kind of record belong together when what is written holds no numbers
and is read as what was written.  Lists and dictionaries of such a kind are one again, and so is a
record whose fields are: its fields stand under keys of their own, in the order in which they are
asked for.

* `record_obj` : the fields of a record are found under their keys.
* `Faithful.list`, `Faithful.dict` : from one record to lists and dictionaries of them.
* `Index.ofArchive?_archive`, `SchemaIndex.ofArchive?_archive` : a kept text is read back.
-/

namespace CodeIndex

namespace Json

/-- A reader that succeeds on every element reads the list. -/
theorem mapM_eq_some {α β : Type} {f : α → Option β} {g : α → β} {xs : List α}
    (h : ∀ x ∈ xs, f x = some (g x)) : xs.mapM f = some (xs.map g) := by
  induction xs with
  | nil => rfl
  | cons x xs ih =>
      rw [List.mapM_cons, h x List.mem_cons_self, ih fun y hy => h y (List.mem_cons_of_mem x hy)]
      rfl

/-- What is written is read back, and holds no numbers. -/
structure Faithful {α : Type} (write : α → Json) (read : Json → Option α) : Prop where
  plain : ∀ x, (write x).Plain
  back : ∀ x, read (write x) = some x

section

variable {α : Type} {write : α → Json} {read : Json → Option α}

/-- Lists of records. -/
theorem Faithful.list (h : Faithful write read) :
    Faithful (fun xs : List α => .arr (xs.map write)) (asList? read) where
  plain := by
    intro xs
    show (Json.arr (xs.map write)).Plain
    refine Plain.arr ?_
    intro j hj
    obtain ⟨x, -, rfl⟩ := List.mem_map.mp hj
    exact h.plain x
  back := by
    intro xs
    rw [asList?, List.mapM_map, mapM_eq_some (f := read ∘ write) (g := id), List.map_id]
    exact fun x _ => h.back x

/-- Dictionaries of records. -/
theorem Faithful.dict (h : Faithful write read) : Faithful (ofDict write) (asDict? read) where
  plain := by
    intro d
    rw [ofDict]
    refine Plain.obj ?_
    intro e he
    obtain ⟨entry, -, rfl⟩ := List.mem_map.mp he
    exact h.plain entry.2
  back := by
    intro d
    rw [ofDict, asDict?, List.mapM_map, mapM_eq_some (g := id), List.map_id, Option.map_some,
      Dict.ofList_entries]
    intro e _
    simp [h.back]

/-- A field that has to be there. -/
theorem Faithful.needed (h : Faithful write read) (x : α) :
    needed read (some (write x)) = some x := h.back x

end

/-- Strings are written faithfully. -/
theorem faithful_str : Faithful Json.str asString? := ⟨.str, fun _ => rfl⟩

/-- Lists of strings are written faithfully. -/
theorem faithful_strings : Faithful strings (asList? asString?) := faithful_str.list

/-- A required string is read back. -/
@[simp] theorem needed_str (s : String) : needed asString? (some (.str s)) = some s := rfl

/-- A required flag is read back. -/
@[simp] theorem needed_bool (b : Bool) : needed asBool? (some (.bool b)) = some b := rfl

/-- A required list of strings is read back. -/
@[simp] theorem needed_strings (xs : List String) :
    needed (asList? asString?) (some (strings xs)) = some xs := faithful_strings.back xs

/-- An optional string is read back, absent ones as `null`. -/
@[simp] theorem allowed_optional (s : Option String) :
    allowed asString? (some (optional s)) = some s := by
  cases s <;> rfl

/-- An optional string is written without a number. -/
theorem plain_optional (s : Option String) : (optional s).Plain := by
  cases s with
  | none => exact .null
  | some s => exact .str s

attribute [simp] Plain.null Plain.bool Plain.str plain_optional

@[simp] theorem plain_obj_nil : (Json.obj []).Plain := .obj (by simp)

@[simp] theorem plain_obj_cons {key : String} {value : Json} {entries : List (String × Json)} :
    (Json.obj ((key, value) :: entries)).Plain ↔ value.Plain ∧ (Json.obj entries).Plain := by
  constructor
  · intro h
    cases h with
    | obj h =>
        rw [List.forall_mem_cons] at h
        exact ⟨h.1, .obj h.2⟩
  · rintro ⟨hvalue, hrest⟩
    cases hrest with
    | obj hrest => exact .obj (List.forall_mem_cons.mpr ⟨hvalue, hrest⟩)

/-- The fields of a record are found under their keys, if no key is used twice. -/
theorem record_obj {keys : List String} {entries : List (String × Json)}
    (hkeys : entries.map Prod.fst = keys) (hnodup : keys.Nodup) :
    record keys (.obj entries) = some (entries.map fun e => some e.2) := by
  have hfield : ∀ e ∈ entries, fieldOf entries e.1 = some (some e.2) := by
    subst hkeys
    induction entries with
    | nil => simp
    | cons first rest ih =>
        obtain ⟨hfirst, hrest⟩ := List.nodup_cons.mp hnodup
        intro e he
        rcases List.mem_cons.mp he with rfl | he
        · have hnone : (rest.filter fun other => other.1 == e.1) = [] := by
            refine List.filter_eq_nil_iff.mpr ?_
            intro other hother hsame
            exact hfirst (List.mem_map.mpr ⟨other, hother, by simpa using hsame⟩)
          simp [fieldOf, hnone]
        · have hne : first.1 ≠ e.1 := by
            intro hsame
            exact hfirst (List.mem_map.mpr ⟨e, he, hsame.symm⟩)
          have hskip : fieldOf (first :: rest) e.1 = fieldOf rest e.1 := by
            simp [fieldOf, hne]
          rw [hskip, ih hrest e he]
  rw [record, ← hkeys, List.mapM_map]
  exact mapM_eq_some hfield

/-- What is read from the fields of a record. -/
theorem bind_record_obj {α : Type} {keys : List String} {entries : List (String × Json)}
    (hkeys : entries.map Prod.fst = keys) (hnodup : keys.Nodup)
    (f : List (Option Json) → Option α) :
    (record keys (.obj entries) >>= f) = f (entries.map fun e => some e.2) := by
  rw [record_obj hkeys hnodup, Option.bind_eq_bind, Option.bind_some]

end Json

/-! ## Declarations -/

open Json

/-- Parameters are written faithfully. -/
theorem Parameter.faithful : Faithful Parameter.toJson Parameter.ofJson? where
  plain := by
    intro p
    simp [Parameter.toJson]
  back := by
    intro p
    rw [Parameter.ofJson?, Parameter.toJson, bind_record_obj (by rfl) (by decide)]
    dsimp only [List.map]
    simp

/-- A visibility is read back from its word. -/
theorem Visibility.needed_word (v : Visibility) :
    needed (asChoice? Visibility.choices) (some (.str v.word)) = some v := by
  cases v <;> rfl

/-- Methods are written faithfully. -/
theorem Method.faithful : Faithful Method.toJson Method.ofJson? where
  plain := by
    intro m
    simp [Method.toJson, Parameter.faithful.list.plain]
  back := by
    intro m
    rw [Method.ofJson?, Method.toJson, bind_record_obj (by rfl) (by decide)]
    dsimp only [List.map]
    simp [Visibility.needed_word, Parameter.faithful.list.needed]

/-- Properties are written faithfully. -/
theorem Property.faithful : Faithful Property.toJson Property.ofJson? where
  plain := by
    intro p
    simp [Property.toJson]
  back := by
    intro p
    rw [Property.ofJson?, Property.toJson, bind_record_obj (by rfl) (by decide)]
    dsimp only [List.map]
    simp [Visibility.needed_word]

/-- Constants are written faithfully. -/
theorem Constant.faithful : Faithful Constant.toJson Constant.ofJson? where
  plain := by
    intro c
    simp [Constant.toJson]
  back := by
    intro c
    rw [Constant.ofJson?, Constant.toJson, bind_record_obj (by rfl) (by decide)]
    dsimp only [List.map]
    simp [Visibility.needed_word]

/-- A kind of declaration is read back from its word. -/
theorem DeclarationKind.needed_word (k : DeclarationKind) :
    needed (asChoice? DeclarationKind.choices) (some (.str k.word)) = some k := by
  cases k <;> rfl

/-- Declarations are written faithfully, members and all. -/
theorem Declaration.faithful : Faithful Declaration.toJson Declaration.ofJson? where
  plain := by
    intro d
    simp [Declaration.toJson, faithful_strings.plain, Method.faithful.list.plain,
      Property.faithful.list.plain, Constant.faithful.list.plain]
  back := by
    intro d
    rw [Declaration.ofJson?, Declaration.toJson, bind_record_obj (by rfl) (by decide)]
    dsimp only [List.map]
    simp [DeclarationKind.needed_word, Method.faithful.list.needed, Property.faithful.list.needed,
      Constant.faithful.list.needed]

/-- Events are written faithfully. -/
theorem EventInfo.faithful : Faithful EventInfo.toJson EventInfo.ofJson? where
  plain := by
    intro e
    simp [EventInfo.toJson, faithful_strings.plain]
  back := by
    intro e
    rw [EventInfo.ofJson?, EventInfo.toJson, bind_record_obj (by rfl) (by decide)]
    dsimp only [List.map]
    simp

/-! ## Tables -/

/-- Columns are written faithfully. -/
theorem Column.faithful : Faithful Column.toJson Column.ofJson? where
  plain := by
    intro c
    simp [Column.toJson]
  back := by
    intro c
    rw [Column.ofJson?, Column.toJson, bind_record_obj (by rfl) (by decide)]
    dsimp only [List.map]
    simp

/-- A kind of key is read back from its word. -/
theorem KeyKind.needed_word (k : KeyKind) :
    needed (asChoice? KeyKind.choices) (some (.str k.word)) = some k := by
  cases k <;> rfl

/-- Keys are written faithfully. -/
theorem Key.faithful : Faithful Key.toJson Key.ofJson? where
  plain := by
    intro k
    simp [Key.toJson, faithful_strings.plain]
  back := by
    intro k
    rw [Key.ofJson?, Key.toJson, bind_record_obj (by rfl) (by decide)]
    dsimp only [List.map]
    simp [KeyKind.needed_word]

/-- Tables are written faithfully, columns and keys included. -/
theorem Table.faithful : Faithful Table.toJson Table.ofJson? where
  plain := by
    intro t
    simp [Table.toJson, Column.faithful.list.plain, Key.faithful.list.plain]
  back := by
    intro t
    rw [Table.ofJson?, Table.toJson, bind_record_obj (by rfl) (by decide)]
    dsimp only [List.map]
    simp [Column.faithful.list.needed, Key.faithful.list.needed]

/-- A schema index is written faithfully: its map comes back from its list of tables. -/
theorem SchemaIndex.faithful : Faithful SchemaIndex.toJson SchemaIndex.ofJson? where
  plain := by
    intro s
    simp [SchemaIndex.toJson, Table.faithful.list.plain, Table.faithful.dict.plain]
  back := by
    intro s
    rw [SchemaIndex.ofJson?, SchemaIndex.toJson, bind_record_obj (by rfl) (by decide)]
    dsimp only [List.map]
    simp [Table.faithful.list.needed, Table.faithful.dict.needed]

/-! ## Indexes -/

/-- Everything that is written of an index is plain. -/
theorem Index.plain_toJson (i : Index) : i.toJson.Plain := by
  simp [Index.toJson, Declaration.faithful.list.plain, faithful_strings.dict.plain,
    EventInfo.faithful.dict.plain]

/-- An index is read back up to the time it was built at, which is read from its text. -/
theorem Index.ofJson?_toJson (i : Index) : Index.ofJson? i.toJson
    = (Timestamp.parse? i.builtAt.text).map fun builtAt => { i with builtAt } := by
  have htime : needed Timestamp.ofJson? (some (.str i.builtAt.text))
      = Timestamp.parse? i.builtAt.text := by
    rw [needed, Timestamp.ofJson?, asString?, Option.bind_some]
  rw [Index.ofJson?, Index.toJson, bind_record_obj (by rfl) (by decide)]
  dsimp only [List.map]
  cases htext : Timestamp.parse? i.builtAt.text <;>
    simp [htime, htext, Declaration.faithful.list.needed, faithful_strings.dict.needed,
      EventInfo.faithful.dict.needed]

/-- **The text an index is kept as is read back as that index**, if it is of this version and its
time is one of the calendar; a text of another version is read as none. -/
theorem Index.ofArchive?_archive (i : Index) :
    (i.version = formatVersion → i.builtAt.IsValid → Index.ofArchive? i.archive = some i) ∧
      (i.version ≠ formatVersion → Index.ofArchive? i.archive = none) := by
  have hread : Index.ofArchive? i.archive
      = (Timestamp.parse? i.builtAt.text).bind fun builtAt =>
          if i.version = formatVersion then some { i with builtAt } else none := by
    rw [Index.ofArchive?, Index.archive, parse?_pretty i.plain_toJson, Option.bind_eq_bind,
      Option.bind_some, Index.ofJson?_toJson, Option.bind_eq_bind, Option.bind_map]
    rfl
  constructor
  · intro hversion htime
    rw [hread, Timestamp.parse?_text htime, Option.bind_some, if_pos hversion]
  · intro hversion
    rw [hread]
    simp [hversion]

/-- **The text a schema index is kept as is read back as that index.** -/
theorem SchemaIndex.ofArchive?_archive (s : SchemaIndex) :
    SchemaIndex.ofArchive? s.archive = some s := by
  rw [SchemaIndex.ofArchive?, SchemaIndex.archive, parse?_pretty (SchemaIndex.faithful.plain s),
    Option.bind_eq_bind, Option.bind_some, SchemaIndex.faithful.back s]

end CodeIndex
