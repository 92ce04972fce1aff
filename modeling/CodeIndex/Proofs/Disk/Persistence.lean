import CodeIndex.Proofs.Archive.RoundTrip
import CodeIndex.Proofs.Disk.Keep

/-!
# Persistence

What was saved is loaded again: an index of this version with all that it holds, an index of
another version not at all, and a schema index always.  That a save that succeeds makes exactly
its text readable is what this rests on, and where the path and the temporary one lead to
different files it does.

* `persists_of_filesApart` : when a save makes its text readable.
* `load_of_save` : what was saved is loaded.
-/

namespace CodeIndex.Disk

/-- A save to the path that succeeds makes exactly its text readable there. -/
def Persists (disk : Disk) (path : String) : Prop :=
  ∀ fault text disk', disk.save fault path text = (disk', .ok ()) →
    disk'.readText? path = some text

section

variable {disk : Disk} {path text : String}

/-- Bytes of a text are read as that text. -/
theorem readText?_of_read (h : disk.read path = .ok text.toUTF8) :
    disk.readText? path = some text := by
  rw [readText?, h]
  exact Text.strict?_toUTF8 text

/-- An index is loaded from the text of its file. -/
theorem loadIndex?_of_readText? (h : disk.readText? path = some text) :
    disk.loadIndex? path = Index.ofArchive? text := by
  rw [loadIndex?, h, Option.bind_some]

/-- A schema index is loaded from the text of its file. -/
theorem loadSchema?_of_readText? (h : disk.readText? path = some text) :
    disk.loadSchema? path = SchemaIndex.ofArchive? text := by
  rw [loadSchema?, h, Option.bind_some]

/-- Where a path and the temporary one lead to different files, a save makes its text readable. -/
theorem persists_of_filesApart (hwf : disk.WellFormed)
    (h : disk.FilesApart [path, temporaryPath path]) : disk.Persists path := by
  intro fault text disk' hsave
  obtain ⟨-, -, hread, -⟩ := save_kept hwf h hsave
  exact readText?_of_read hread

end

/-- **What was saved is loaded.**  An index of this version, built at any time, is loaded as it
was saved, and so is every schema index; an index of another version is not loaded. -/
theorem load_of_save {disk : Disk} {path : String} (h : disk.Persists path) :
    (∀ fault index disk', disk.saveIndex fault path index = (disk', .ok ()) →
      (index.version = formatVersion → index.builtAt.IsValid →
        disk'.loadIndex? path = some index) ∧
      (index.version ≠ formatVersion → disk'.loadIndex? path = none)) ∧
    ∀ fault schema disk', disk.saveSchema fault path schema = (disk', .ok ()) →
      disk'.loadSchema? path = some schema := by
  constructor
  · intro fault index disk' hsave
    rw [loadIndex?_of_readText? (h fault index.archive disk' hsave)]
    exact Index.ofArchive?_archive index
  · intro fault schema disk' hsave
    rw [loadSchema?_of_readText? (h fault schema.archive disk' hsave)]
    exact SchemaIndex.ofArchive?_archive schema

/-- An index with quotes, line ends and letters of other scripts in its texts. -/
def unusualIndex : Index :=
  Index.assemble ⟨⟨2024, 2, 29⟩, 3, 4, 5⟩ (some "0a1b") none
    [{ name := "Größe", space := "App", qualifiedName := "App\\Größe", doc := some "\"\n\t漢" }]

/-- A save that succeeds leaves a disk. -/
theorem exists_of_isOk (after : Disk × Except SaveError Unit) (h : after.2.isOk = true) :
    ∃ disk, after = (disk, .ok ()) := by
  obtain ⟨disk, e | _⟩ := after
  · cases h
  · exact ⟨disk, rfl⟩

/-- It is loaded as it was saved, and not if its version is another. -/
theorem load_of_save_unusual :
    Persists {} "index.json" ∧
      (∃ disk', saveIndex {} none "index.json" unusualIndex = (disk', .ok ()) ∧
        disk'.loadIndex? "index.json" = some unusualIndex) ∧
      (∃ disk', saveIndex {} none "index.json" { unusualIndex with version := "0" }
          = (disk', .ok ()) ∧ disk'.loadIndex? "index.json" = none) ∧
      ∃ disk', saveSchema {} none "index.json" .empty = (disk', .ok ()) ∧
        disk'.loadSchema? "index.json" = some .empty := by
  have hvalid : unusualIndex.builtAt.IsValid := ⟨by decide, by decide, by decide, by decide⟩
  have hwf : WellFormed {} := wellFormed_of_entries (by simp) rfl (by simp)
  have hpersists : Persists {} "index.json" :=
    persists_of_filesApart hwf (filesApart_of_trail 9 (by decide +kernel) (by decide +kernel)
      (by decide +kernel))
  obtain ⟨hindex, hschema⟩ := load_of_save hpersists
  obtain ⟨first, hfirst⟩ := exists_of_isOk (saveIndex {} none "index.json" unusualIndex)
    (by decide +kernel)
  obtain ⟨second, hsecond⟩ := exists_of_isOk
    (saveIndex {} none "index.json" { unusualIndex with version := "0" }) (by decide +kernel)
  obtain ⟨third, hthird⟩ := exists_of_isOk (saveSchema {} none "index.json" .empty)
    (by decide +kernel)
  refine ⟨hpersists, ⟨first, hfirst, ?_⟩, ⟨second, hsecond, ?_⟩, third, hthird, ?_⟩
  · exact (hindex none unusualIndex first hfirst).1 rfl hvalid
  · exact (hindex none _ second hsecond).2 (by decide)
  · exact hschema none .empty third hthird

end CodeIndex.Disk
