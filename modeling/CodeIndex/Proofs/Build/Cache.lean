import CodeIndex.Build
import CodeIndex.Proofs.Disk.Text

/-!
# When a kept snapshot is used again

The kept index alone decides between the two answers: a usable index is served, with whatever
schema index can be loaded beside it, and without one the trees are read again.  So an unusable
schema index does not lead to a rebuild: the answer has no tables, whatever the scripts hold.

* `loadOrBuild_rebuilds_iff` : the trees are read again exactly when the index is unusable.
* `loadOrBuild_serves_lone_index` : a kept index without its schema index is served.
-/

namespace CodeIndex.Build

/-- Keeping a snapshot ends with that snapshot, as built, or with a failed save. -/
theorem keep_opened (config : Config) (disk : Disk) (dir : String) (faults : Faults)
    (s : Snapshot) : (keep config disk dir faults s).2 = .ok (some (s, .built)) ∨
      ∃ e, (keep config disk dir faults s).2 = .error e := by
  rw [keep]
  rcases disk.saveIndex faults.index (config.indexPath dir) s.index with ⟨disk, e | _⟩
  · exact .inr ⟨e, rfl⟩
  · simp only
    rcases disk.saveSchema faults.schema (config.schemaPath dir) s.schema with ⟨disk, e | _⟩
    · exact .inr ⟨e, rfl⟩
    · exact .inl rfl

/-- What is kept is served with its index, and with the schema index beside it or none. -/
theorem loadOrBuildWith_of_loadIndex? {config : Config} {disk : Disk} {dir : String} {index : Index}
    (h : disk.loadIndex? (config.indexPath dir) = some index) (faults : Faults)
    (now : Timestamp) : loadOrBuildWith faults config disk now dir false
      = (disk, .ok (some (⟨index, (disk.loadSchema? (config.schemaPath dir)).getD .empty⟩,
          .cache))) := by
  simp [loadOrBuildWith, reusable?, cached?, h]

/-- Without a kept index the snapshot of the trees is built and kept. -/
theorem loadOrBuildWith_of_no_index {config : Config} {disk : Disk} {dir : String}
    (h : disk.loadIndex? (config.indexPath dir) = none)
    (hsource : (Source.ofConfig config dir).hasSources disk = true) (faults : Faults)
    (now : Timestamp) : loadOrBuildWith faults config disk now dir false
      = keep config disk dir faults (snapshot config disk now (Source.ofConfig config dir)) := by
  simp [loadOrBuildWith, reusable?, cached?, h, hsource]

/-- A request without a rebuild is answered from the trees: with the snapshot that they give
now, or with a failed save. -/
def Rebuilds (config : Config) (disk : Disk) (now : Timestamp) (dir : String) : Prop :=
  (loadOrBuild config disk now dir false).2
      = .ok (some (snapshot config disk now (Source.ofConfig config dir), .built)) ∨
    ∃ e, (loadOrBuild config disk now dir false).2 = .error e

/-- A kept index is not answered from the trees. -/
theorem not_rebuilds_of_loadIndex? {config : Config} {disk : Disk} {dir : String} {index : Index}
    (h : disk.loadIndex? (config.indexPath dir) = some index) (now : Timestamp) :
    ¬Rebuilds config disk now dir := by
  rw [Rebuilds, loadOrBuild, loadOrBuildWith_of_loadIndex? h]
  rintro (hbuilt | ⟨e, herror⟩)
  · simp at hbuilt
  · simp at herror

/-- Without a kept index the answer comes from the trees. -/
theorem rebuilds_of_no_index {config : Config} {disk : Disk} {dir : String}
    (h : disk.loadIndex? (config.indexPath dir) = none)
    (hsource : (Source.ofConfig config dir).hasSources disk = true) (now : Timestamp) :
    Rebuilds config disk now dir := by
  rw [Rebuilds, loadOrBuild, loadOrBuildWith_of_no_index h hsource]
  exact keep_opened config disk dir {} _

/-- **The index decides.**  Where there is a source tree, a request without a rebuild is answered
from the trees exactly when the kept index is missing, unreadable, no index or one of another
version.  Otherwise the kept index is served and the disk stays as it is; if the kept schema
index is unusable, it is served without tables. -/
theorem loadOrBuild_rebuilds_iff {config : Config} {disk : Disk} {dir : String}
    (hsource : (Source.ofConfig config dir).hasSources disk = true) (now : Timestamp) :
    (Rebuilds config disk now dir ↔ disk.IndexUnusable (config.indexPath dir)) ∧
      (disk.SchemaUnusable (config.schemaPath dir) →
        ¬disk.IndexUnusable (config.indexPath dir) →
        ∃ index, disk.loadIndex? (config.indexPath dir) = some index ∧
          loadOrBuild config disk now dir false = (disk, .ok (some (⟨index, .empty⟩, .cache)))) := by
  constructor
  · rw [← Disk.loadIndex?_eq_none_iff]
    constructor
    · intro hrebuilds
      cases hindex : disk.loadIndex? (config.indexPath dir) with
      | none => rfl
      | some index => exact absurd hrebuilds (not_rebuilds_of_loadIndex? hindex now)
    · exact fun hnone => rebuilds_of_no_index hnone hsource now
  · intro hschema husable
    rw [← Disk.loadIndex?_eq_none_iff] at husable
    obtain ⟨index, hindex⟩ := Option.ne_none_iff_exists'.mp husable
    refine ⟨index, hindex, ?_⟩
    rw [loadOrBuild, loadOrBuildWith_of_loadIndex? hindex,
      Disk.loadSchema?_eq_none_iff.mpr hschema]
    rfl

/-- A disk that keeps the index of an empty tree and no schema index. -/
def loneIndex : Disk where
  entries :=
    [([".phpindex"], .dir), ([".phpindex", "index.json"],
      .file (Index.empty ⟨⟨2024, 1, 2⟩, 3, 4, 0⟩).archive.toUTF8)]

/-- The index decides where it is kept alone. -/
theorem loadOrBuild_rebuilds_iff_lone :
    (Source.ofConfig {} ".").hasSources loneIndex = true ∧
      (Rebuilds {} loneIndex ⟨⟨2025, 1, 1⟩, 0, 0, 0⟩ "." ↔
        loneIndex.IndexUnusable "./.phpindex/index.json") ∧
      (loneIndex.SchemaUnusable "./.phpindex/schema.json" →
        ¬loneIndex.IndexUnusable "./.phpindex/index.json" →
        ∃ index, loneIndex.loadIndex? "./.phpindex/index.json" = some index ∧
          loadOrBuild {} loneIndex ⟨⟨2025, 1, 1⟩, 0, 0, 0⟩ "." false
            = (loneIndex, .ok (some (⟨index, .empty⟩, .cache)))) := by
  have hsource : (Source.ofConfig {} ".").hasSources loneIndex = true := by decide +kernel
  exact ⟨hsource, loadOrBuild_rebuilds_iff hsource ⟨⟨2025, 1, 1⟩, 0, 0, 0⟩⟩

/-- An unusable artifact alone does not lead to a rebuild: a kept index is served although its
schema index is missing. -/
theorem loadOrBuild_serves_lone_index :
    ¬∀ (config : Config) (disk : Disk) (now : Timestamp) (dir : String),
      (Source.ofConfig config dir).hasSources disk = true →
      (disk.IndexUnusable (config.indexPath dir) ∨ disk.SchemaUnusable (config.schemaPath dir)) →
      Rebuilds config disk now dir := by
  intro hclaim
  have hsource : (Source.ofConfig {} ".").hasSources loneIndex = true := by decide +kernel
  have hschema : loneIndex.SchemaUnusable (Config.schemaPath {} ".") :=
    .missing (by decide +kernel)
  have hread : loneIndex.read (Config.indexPath {} ".")
      = .ok (Index.empty ⟨⟨2024, 1, 2⟩, 3, 4, 0⟩).archive.toUTF8 := rfl
  have hindex : ∃ index, loneIndex.loadIndex? (Config.indexPath {} ".") = some index := by
    rw [Disk.loadIndex?, Disk.readText?, hread]
    simp only [Text.strict?_toUTF8, Option.bind_some]
    rw [Index.ofArchive?, Index.archive, Json.pretty, Json.parse?_ofList]
    exact Option.isSome_iff_exists.mp (by decide +kernel)
  obtain ⟨index, hindex⟩ := hindex
  exact not_rebuilds_of_loadIndex? hindex ⟨⟨2024, 1, 2⟩, 3, 4, 0⟩
    (hclaim {} loneIndex ⟨⟨2024, 1, 2⟩, 3, 4, 0⟩ "." hsource (.inr hschema))

end CodeIndex.Build
