import CodeIndex.Proofs.Build.Cache
import CodeIndex.Proofs.Disk.Persistence

/-!
# Building once

A snapshot that was built and kept is used again: the next request that does not ask for a rebuild
is answered with that snapshot, whatever has become of the trees, as long as the two files are as
they were left.  A request that is answered otherwise changes nothing.

* `keep_eq_built` : both saves of a snapshot that was kept succeeded.
* `read_of_built` : the two files hold the two texts.
* `loadOrBuildWith_reuses` : the snapshot is used again.
-/

namespace CodeIndex.Build

variable {config : Config} {dir : String} {disk disk' : Disk} {faults : Faults}

/-- The paths of the two files and of their temporary files. -/
def keptPaths (config : Config) (dir : String) : List String :=
  [config.indexPath dir, Disk.temporaryPath (config.indexPath dir), config.schemaPath dir,
    Disk.temporaryPath (config.schemaPath dir)]

/-- Both saves of a snapshot that was kept succeeded. -/
theorem keep_eq_built {s built : Snapshot}
    (h : keep config disk dir faults s = (disk', .ok (some (built, .built)))) :
    built = s ∧ ∃ mid, disk.saveIndex faults.index (config.indexPath dir) s.index = (mid, .ok ()) ∧
      mid.saveSchema faults.schema (config.schemaPath dir) s.schema = (disk', .ok ()) := by
  rw [keep] at h
  rcases hindex : disk.saveIndex faults.index (config.indexPath dir) s.index with ⟨mid, e | _⟩
  · simp [hindex] at h
  · simp only [hindex] at h
    rcases hschema : mid.saveSchema faults.schema (config.schemaPath dir) s.schema with
      ⟨last, e | _⟩
    · simp [hschema] at h
    · simp only [hschema, Prod.mk.injEq, Except.ok.injEq, Option.some.injEq, and_true] at h
      exact ⟨h.2.symm, mid, rfl, by rw [hschema, h.1]⟩

/-- A snapshot is kept unless a save fails. -/
theorem exists_built {s : Snapshot} (h : (keep config disk dir faults s).2.isOk = true) :
    ∃ disk' built, keep config disk dir faults s = (disk', .ok (some (built, .built))) := by
  rcases keep_opened config disk dir faults s with hbuilt | ⟨e, herror⟩
  · exact ⟨(keep config disk dir faults s).1, s, Prod.ext rfl hbuilt⟩
  · rw [herror] at h
    cases h

/-- What was built is the snapshot of the trees, and it was kept. -/
theorem keep_of_built {now : Timestamp} {rebuild : Bool} {s : Snapshot}
    (h : loadOrBuildWith faults config disk now dir rebuild = (disk', .ok (some (s, .built)))) :
    keep config disk dir faults (snapshot config disk now (Source.ofConfig config dir))
      = (disk', .ok (some (s, .built))) := by
  unfold loadOrBuildWith at h
  cases hreuse : reusable? config disk dir rebuild with
  | some kept => simp [hreuse] at h
  | none =>
      simp only [hreuse] at h
      split at h
      · exact h
      · simp at h

/-- After it was kept the two files hold the two texts. -/
theorem read_of_built (hwf : disk.WellFormed) (hfiles : disk.FilesApart (keptPaths config dir))
    {s built : Snapshot} (h : keep config disk dir faults s = (disk', .ok (some (built, .built)))) :
    disk'.read (config.indexPath dir) = .ok s.index.archive.toUTF8 ∧
      disk'.read (config.schemaPath dir) = .ok s.schema.archive.toUTF8 := by
  obtain ⟨-, mid, hindex, hschema⟩ := keep_eq_built h
  obtain ⟨hwfMid, hapart, hread, -⟩ := Disk.save_kept hwf hfiles hindex
  have hnext : mid.FilesApart [config.schemaPath dir,
      Disk.temporaryPath (config.schemaPath dir), config.indexPath dir] :=
    hapart.perm (List.perm_append_singleton _ _).symm
  obtain ⟨-, -, hreadSchema, hkept⟩ := Disk.save_kept hwfMid hnext hschema
  exact ⟨hkept _ List.mem_cons_self _ hread, hreadSchema⟩

/-- What is loaded from the two files. -/
theorem load_of_read {s : Snapshot} (hversion : s.index.version = formatVersion)
    (hvalid : s.index.builtAt.IsValid)
    (hindex : disk.read (config.indexPath dir) = .ok s.index.archive.toUTF8)
    (hschema : disk.read (config.schemaPath dir) = .ok s.schema.archive.toUTF8) (now : Timestamp) :
    loadOrBuildWith faults config disk now dir false = (disk, .ok (some (s, .cache))) := by
  have hloadIndex : disk.loadIndex? (config.indexPath dir) = some s.index := by
    rw [Disk.loadIndex?_of_readText? (Disk.readText?_of_read hindex)]
    exact (Index.ofArchive?_archive s.index).1 hversion hvalid
  have hloadSchema : disk.loadSchema? (config.schemaPath dir) = some s.schema := by
    rw [Disk.loadSchema?_of_readText? (Disk.readText?_of_read hschema)]
    exact SchemaIndex.ofArchive?_archive s.schema
  rw [loadOrBuildWith_of_loadIndex? hloadIndex, hloadSchema]
  rfl

/-- An answer without a build leaves the disk as it is. -/
theorem disk_eq_of_not_built {now : Timestamp} {rebuild : Bool}
    {answer : Option (Snapshot × Origin)}
    (h : loadOrBuildWith faults config disk now dir rebuild = (disk', .ok answer))
    (hanswer : ∀ s, answer ≠ some (s, .built)) : disk' = disk := by
  unfold loadOrBuildWith at h
  cases hreuse : reusable? config disk dir rebuild with
  | some kept =>
      simp only [hreuse, Prod.mk.injEq] at h
      exact h.1.symm
  | none =>
      simp only [hreuse] at h
      split at h
      · have hopened := congrArg Prod.snd h
        rcases keep_opened config disk dir faults
          (snapshot config disk now (Source.ofConfig config dir)) with hbuilt | ⟨e, herror⟩
        · rw [hbuilt] at hopened
          exact absurd (Except.ok.inj hopened).symm (hanswer _)
        · rw [herror] at hopened
          cases hopened
      · exact (congrArg Prod.fst h).symm

/-- **What was built is used again.**  Where the configured paths and their temporary paths lead
to different files, a snapshot that was built answers every later request without a rebuild, as
long as the two files are as they were; and no answer without a build changes the disk. -/
theorem loadOrBuildWith_reuses (config : Config) (dir : String) :
    (∀ (disk disk' : Disk) (now : Timestamp) (faults : Faults) (rebuild : Bool) (s : Snapshot),
      disk.WellFormed → now.IsValid → disk.FilesApart (keptPaths config dir) →
      loadOrBuildWith faults config disk now dir rebuild = (disk', .ok (some (s, .built))) →
      ∀ later : Disk, later.read (config.indexPath dir) = disk'.read (config.indexPath dir) →
        later.read (config.schemaPath dir) = disk'.read (config.schemaPath dir) →
        ∀ (now' : Timestamp) (faults' : Faults),
          loadOrBuildWith faults' config later now' dir false
            = (later, .ok (some (s, .cache)))) ∧
    ∀ (disk disk' : Disk) (now : Timestamp) (faults : Faults) (rebuild : Bool)
      (answer : Option (Snapshot × Origin)),
      loadOrBuildWith faults config disk now dir rebuild = (disk', .ok answer) →
      (∀ s, answer ≠ some (s, .built)) → disk' = disk := by
  constructor
  · intro disk disk' now faults rebuild s hwf hnow hfiles hbuilt later hindex hschema now' faults'
    have hkeep := keep_of_built hbuilt
    obtain ⟨rfl, -⟩ := keep_eq_built hkeep
    obtain ⟨hreadIndex, hreadSchema⟩ := read_of_built hwf hfiles hkeep
    exact load_of_read rfl hnow (hindex.trans hreadIndex) (hschema.trans hreadSchema) now'
  · intro disk disk' now faults rebuild answer h hanswer
    exact disk_eq_of_not_built h hanswer

/-- A configuration with a source tree of its own. -/
def sourced : Config where
  project := { sourceRoot := "src" }

/-- A project whose temporary index file is a link to another directory. -/
def linked : Disk where
  entries :=
    [(["src"], .dir), (["store"], .dir), ([".phpindex"], .dir),
      ([".phpindex", "index.json.tmp"], .link "../store/index")]

/-- There a rebuild is used again, and without a source tree nothing changes. -/
theorem loadOrBuildWith_reuses_linked :
    linked.WellFormed ∧ Timestamp.IsValid ⟨⟨2024, 1, 2⟩, 3, 4, 0⟩ ∧
      linked.FilesApart (keptPaths sourced ".") ∧
      (∃ disk' s, loadOrBuildWith {} sourced linked ⟨⟨2024, 1, 2⟩, 3, 4, 0⟩ "." true
          = (disk', .ok (some (s, .built))) ∧
        ∀ later : Disk,
          later.read (sourced.indexPath ".") = disk'.read (sourced.indexPath ".") →
          later.read (sourced.schemaPath ".") = disk'.read (sourced.schemaPath ".") →
          ∀ (now : Timestamp) (faults : Faults),
            loadOrBuildWith faults sourced later now "." false
              = (later, .ok (some (s, .cache)))) ∧
      ∃ disk', loadOrBuildWith {} sourced {} ⟨⟨2024, 1, 2⟩, 3, 4, 0⟩ "." true
          = (disk', .ok none) ∧ disk' = {} := by
  have hwf : linked.WellFormed := by
    refine Disk.wellFormed_of_entries ?_ rfl (by simp [linked])
    simp only [linked, List.forall_mem_cons]
    exact ⟨rfl, rfl, rfl, rfl, by simp⟩
  have hnow : Timestamp.IsValid ⟨⟨2024, 1, 2⟩, 3, 4, 0⟩ :=
    ⟨by decide, by decide, by decide, by decide⟩
  have hfiles : linked.FilesApart (keptPaths sourced ".") :=
    Disk.filesApart_of_trail 9 (by decide +kernel) (by decide +kernel) (by decide +kernel)
  obtain ⟨hreuse, hsame⟩ := loadOrBuildWith_reuses sourced "."
  refine ⟨hwf, hnow, hfiles, ?_, ?_⟩
  · have hsource : (Source.ofConfig sourced ".").hasSources linked = true := by
      decide +kernel
    have hok : (keep sourced linked "." {} (snapshot sourced linked
        ⟨⟨2024, 1, 2⟩, 3, 4, 0⟩ (Source.ofConfig sourced "."))).2.isOk = true := by
      decide +kernel
    have hkeep : loadOrBuildWith {} sourced linked ⟨⟨2024, 1, 2⟩, 3, 4, 0⟩ "." true
        = keep sourced linked "." {} (snapshot sourced linked ⟨⟨2024, 1, 2⟩, 3, 4, 0⟩
            (Source.ofConfig sourced ".")) := by
      simp [loadOrBuildWith, reusable?, hsource]
    obtain ⟨disk', s, hbuilt⟩ := exists_built hok
    rw [← hkeep] at hbuilt
    exact ⟨disk', s, hbuilt, hreuse _ _ _ _ _ _ hwf hnow hfiles hbuilt⟩
  · have hsource : (Source.ofConfig sourced ".").hasSources {} = false := by
      decide +kernel
    have hnone : loadOrBuildWith {} sourced {} ⟨⟨2024, 1, 2⟩, 3, 4, 0⟩ "." true
        = ({}, .ok none) := by
      simp [loadOrBuildWith, reusable?, hsource]
    exact ⟨{}, hnone, hsame _ _ _ _ _ _ hnone (by simp)⟩

end CodeIndex.Build
