import CodeIndex.Disk.Store

/-!
# Texts on disk

What makes a kept text unusable, as cases, and that loading finds nothing exactly in these
cases.

* `strict?_toUTF8` : bytes that a text was written as are read as that text.
* `parse?_ofList` : reading JSON goes by characters.
* `loadIndex?_eq_none_iff`, `loadSchema?_eq_none_iff` : when there is no index.
-/

namespace CodeIndex

/-- Bytes that a text was written as are read as that text. -/
theorem Text.strict?_toUTF8 (text : String) : Text.strict? text.toUTF8 = some text := by
  rw [Text.strict?, String.fromUTF8?, String.toUTF8_eq_toByteArray, dif_pos text.isValidUTF8]
  rfl

/-- A text is read from its characters. -/
theorem Json.parse?_ofList (cs : List Char) :
    Json.parse? (String.ofList cs) = match Json.readValue (cs.length + 1) cs with
      | some (value, rest) => if (Json.skipSpace rest).isEmpty then some value else none
      | none => none := by
  show (match Json.readValue ((String.ofList cs).toList.length + 1) (String.ofList cs).toList with
      | some (value, rest) => if (Json.skipSpace rest).isEmpty then some value else none
      | none => none) = _
  rw [String.toList_ofList]

namespace Disk

/-- Why the file at a path holds no record of the kind that `ofJson?` reads. -/
inductive Unusable {α : Type} (disk : Disk) (path : String) (ofJson? : Json → Option α) : Prop
  | missing (h : disk.pathExists path = false)
  | unreadable {cause : DiskError} (h : disk.read path = .error cause)
  | notText {bytes : ByteArray} (h : disk.read path = .ok bytes)
      (htext : Text.strict? bytes = none)
  | notJson {text : String} (h : disk.readText? path = some text)
      (hjson : Json.parse? text = none)
  | notRecord {text : String} {json : Json} (h : disk.readText? path = some text)
      (hjson : Json.parse? text = some json) (hrecord : ofJson? json = none)

/-- Why the file at a path holds no index: no record of one, or one of another version. -/
inductive IndexUnusable (disk : Disk) (path : String) : Prop
  | unusable (h : disk.Unusable path Index.ofJson?)
  | outdated {text : String} {json : Json} {index : Index} (h : disk.readText? path = some text)
      (hjson : Json.parse? text = some json) (hrecord : Index.ofJson? json = some index)
      (hversion : index.version ≠ formatVersion)

/-- Why the file at a path holds no schema index. -/
def SchemaUnusable (disk : Disk) (path : String) : Prop :=
  disk.Unusable path SchemaIndex.ofJson?

/-- A missing file cannot be read. -/
theorem read_of_missing {disk : Disk} {path : String} (h : disk.pathExists path = false) :
    ∃ cause, disk.read path = .error cause := by
  unfold pathExists at h
  unfold read
  cases hlookup : disk.lookup path with
  | ok found => simp [hlookup] at h
  | error cause => exact ⟨cause, rfl⟩

/-- A file holds no record exactly when reading its text, the text as JSON, or the JSON as a
record fails. -/
theorem unusable_iff {α : Type} {disk : Disk} {path : String} {ofJson? : Json → Option α} :
    disk.Unusable path ofJson? ↔
      (disk.readText? path).bind (fun text => (Json.parse? text).bind ofJson?) = none := by
  constructor
  · intro h
    cases h with
    | missing h =>
        obtain ⟨cause, hread⟩ := read_of_missing h
        simp [readText?, hread]
    | unreadable h => simp [readText?, h]
    | notText h htext => simp [readText?, h, htext]
    | notJson h hjson => simp [h, hjson]
    | notRecord h hjson hrecord => simp [h, hjson, hrecord]
  · intro h
    cases hread : disk.read path with
    | error cause => exact .unreadable hread
    | ok bytes =>
        cases htext : Text.strict? bytes with
        | none => exact .notText hread htext
        | some text =>
            have hkept : disk.readText? path = some text := by
              rw [readText?, hread]
              exact htext
            cases hjson : Json.parse? text with
            | none => exact .notJson hkept hjson
            | some json =>
                rw [hkept, Option.bind_some, hjson, Option.bind_some] at h
                exact .notRecord hkept hjson h

/-- No index is loaded exactly when the file holds none. -/
theorem loadIndex?_eq_none_iff {disk : Disk} {path : String} :
    disk.loadIndex? path = none ↔ disk.IndexUnusable path := by
  constructor
  · intro h
    cases hrecord : (disk.readText? path).bind fun text =>
        (Json.parse? text).bind Index.ofJson? with
    | none => exact .unusable (unusable_iff.mpr hrecord)
    | some index =>
        obtain ⟨text, hkept, hindex⟩ := Option.bind_eq_some_iff.mp hrecord
        obtain ⟨json, hjson, hindex⟩ := Option.bind_eq_some_iff.mp hindex
        refine .outdated hkept hjson hindex ?_
        intro hversion
        simp [loadIndex?, hkept, Index.ofArchive?, hjson, hindex, hversion] at h
  · intro h
    cases h with
    | unusable h =>
        have hnone := unusable_iff.mp h
        cases hkept : disk.readText? path with
        | none => simp [loadIndex?, hkept]
        | some text =>
            rw [hkept, Option.bind_some] at hnone
            simp [loadIndex?, hkept, Index.ofArchive?, ← Option.bind_assoc, hnone]
    | outdated h hjson hrecord hversion =>
        simp [loadIndex?, h, Index.ofArchive?, hjson, hrecord, hversion]

/-- No schema index is loaded exactly when the file holds none. -/
theorem loadSchema?_eq_none_iff {disk : Disk} {path : String} :
    disk.loadSchema? path = none ↔ disk.SchemaUnusable path :=
  unusable_iff.symm

end Disk

end CodeIndex
