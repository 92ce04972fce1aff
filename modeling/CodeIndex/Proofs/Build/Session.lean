import CodeIndex.Proofs.Build.Cache
import CodeIndex.Proofs.Disk.Save

/-!
# Which snapshot is served

A session is a run of requests for snapshots, with changes of the trees in between.  Its history
tells which snapshots were built and how far each was kept: an attempt may end before its index
is in place, between its two files, or with both in place.  The two files on disk are then those
of two attempts: the index file is that of the newest attempt that kept its index, the schema
file that of the newest one that kept both.

* `layout_standard` : the default paths lead to four places of their own.
* `Holds.keep` : what one attempt to keep a snapshot leaves behind.
* `holds_of_reaches` : what the files hold after any session.
* `served_of_reaches` : a served snapshot is that of one attempt exactly when that attempt kept
  both files.
* `exists_served_apart` : a session that serves an index with the tables of an older snapshot.
-/

namespace CodeIndex.Build

/-- How far an attempt to keep a snapshot came. -/
inductive Kept where
  | nothing
  /-- The index is in place, and its schema index is not. -/
  | index
  | both
  deriving DecidableEq, Repr

/-- A snapshot that was built, and how far it was kept. -/
structure Attempt where
  snapshot : Snapshot
  kept : Kept

/-- How far keeping a snapshot comes. -/
def keptOf (config : Config) (disk : Disk) (dir : String) (faults : Faults) (s : Snapshot) :
    Kept :=
  match disk.saveIndex faults.index (config.indexPath dir) s.index with
  | (_, .error _) => .nothing
  | (disk, .ok ()) =>
    match disk.saveSchema faults.schema (config.schemaPath dir) s.schema with
    | (_, .error _) => .index
    | (_, .ok ()) => .both

/-- The attempt that a request makes; none when a kept snapshot is used or there is no source
tree. -/
def attempt? (faults : Faults) (config : Config) (disk : Disk) (now : Timestamp) (dir : String)
    (rebuild : Bool) : Option Attempt :=
  match reusable? config disk dir rebuild with
  | some _ => none
  | none =>
    let source := Source.ofConfig config dir
    if source.hasSources disk then
      let s := snapshot config disk now source
      some ⟨s, keptOf config disk dir faults s⟩
    else none

/-- Without a snapshot to use again the source tree is built. -/
theorem attempt?_of_none {config : Config} {disk : Disk} {dir : String} {rebuild : Bool}
    (hreuse : reusable? config disk dir rebuild = none)
    (hsource : (Source.ofConfig config dir).hasSources disk = true) (faults : Faults)
    (now : Timestamp) : attempt? faults config disk now dir rebuild
      = some ⟨snapshot config disk now (Source.ofConfig config dir),
          keptOf config disk dir faults
            (snapshot config disk now (Source.ofConfig config dir))⟩ := by
  simp only [attempt?, hreuse, hsource, if_true]

/-- The newest attempt that kept its index, the attempts being listed from the newest on. -/
def lastIndex? (attempts : List Attempt) : Option Attempt :=
  attempts.find? fun a => a.kept != .nothing

/-- The newest attempt that kept both. -/
def lastBoth? (attempts : List Attempt) : Option Attempt :=
  attempts.find? fun a => a.kept == .both

/-- The snapshot that is read back from the texts that an attempt writes. -/
def Attempt.readBack? (a : Attempt) : Option Snapshot :=
  (Index.ofArchive? a.snapshot.index.archive).map fun index =>
    ⟨index, (SchemaIndex.ofArchive? a.snapshot.schema.archive).getD .empty⟩

/-! ## Layout -/

/-- The places of the two files and of their temporary files. -/
structure Places where
  index : Place
  indexTemporary : Place
  schema : Place
  schemaTemporary : Place

/-- The configured paths lead to the places, and neither file gets in the way of the other. -/
structure Layout (config : Config) (dir : String) (cwd : Place) (places : Places) : Prop where
  index : Disk.Slot cwd (config.indexPath dir) places.index places.indexTemporary
  schema : Disk.Slot cwd (config.schemaPath dir) places.schema places.schemaTemporary
  apart : places.index ≠ places.schema
  indexApart : places.indexTemporary ≠ places.schema
  schemaApart : places.schemaTemporary ≠ places.index

/-- The places below a directory where the two files are kept unless configured otherwise. -/
def Places.standard (cwd : Place) : Places where
  index := cwd ++ [".phpindex", "index.json"]
  indexTemporary := cwd ++ [".phpindex", "index.json.tmp"]
  schema := cwd ++ [".phpindex", "schema.json"]
  schemaTemporary := cwd ++ [".phpindex", "schema.json.tmp"]

/-- A path to a file in the directory that they are kept in. -/
theorem site_of_steps {path name : String} (cwd : Place)
    (h : path.toList.any (·.toNat == 0) = false ∧ path.isEmpty = false ∧
      path.utf8ByteSize ≤ Disk.pathLimit ∧ name.utf8ByteSize ≤ Disk.nameLimit ∧
      Disk.steps path = [.here, .named ".phpindex", .named name]) :
    Disk.Site cwd path (cwd ++ [".phpindex", name]) := by
  obtain ⟨hplain, hnonempty, hshort, hname, hsteps⟩ := h
  have hplace : cwd ++ [".phpindex", name] = cwd ++ [".phpindex"] ++ [name] := by simp
  refine ⟨hplain, hnonempty, hshort, .inl ?_⟩
  rw [hsteps, hplace]
  exact .here (.named (by decide +kernel) (.name hname))

/-- Unless configured otherwise, the two files do not get in each other's way. -/
theorem layout_standard {config : Config} (h : config.storage = {}) (cwd : Place) :
    Layout config "." cwd (.standard cwd) := by
  have hindex : config.indexPath "." = Path.join "." ".phpindex/index.json" := by
    rw [Config.indexPath, h]
  have hschema : config.schemaPath "." = Path.join "." ".phpindex/schema.json" := by
    rw [Config.schemaPath, h]
  refine ⟨?_, ?_, ?_, ?_, ?_⟩
  · rw [hindex]
    exact ⟨site_of_steps cwd (by decide +kernel), site_of_steps cwd (by decide +kernel),
      by simp [Places.standard]⟩
  · rw [hschema]
    exact ⟨site_of_steps cwd (by decide +kernel), site_of_steps cwd (by decide +kernel),
      by simp [Places.standard]⟩
  · simp [Places.standard]
  · simp [Places.standard]
  · simp [Places.standard]

/-- The four places. -/
def Places.toList (places : Places) : List Place :=
  [places.index, places.indexTemporary, places.schema, places.schemaTemporary]

/-- A tree of files in which the configured paths lead to the places, with no link on their way,
and no two of these are names of one file. -/
structure Ready (config : Config) (dir : String) (places : Places) (disk : Disk) : Prop where
  layout : Layout config dir disk.cwd places
  wellFormed : disk.WellFormed
  unshared : disk.Unshared places.toList
  index : disk.NoLink places.index
  indexTemporary : disk.NoLink places.indexTemporary
  schema : disk.NoLink places.schema
  schemaTemporary : disk.NoLink places.schemaTemporary

section

variable {config : Config} {dir : String} {places : Places} {disk disk' : Disk}

/-- It stays one while files are written and renamed among the places. -/
theorem Ready.frame (h : Ready config dir places disk) {touched : List Place}
    (hframe : Disk.Frame touched disk disk') (hunshared : disk'.Unshared places.toList) :
    Ready config dir places disk' where
  layout := by
    rw [hframe.cwd]
    exact h.layout
  wellFormed := hframe.wellFormed
  unshared := hunshared
  index := hframe.noLink h.index
  indexTemporary := hframe.noLink h.indexTemporary
  schema := hframe.noLink h.schema
  schemaTemporary := hframe.noLink h.schemaTemporary

/-- Two of the places that are different are not names of one file. -/
theorem Ready.not_sameFile (h : Ready config dir places disk) {place other : Place}
    (hplace : place ∈ places.toList) (hother : other ∈ places.toList) (hne : place ≠ other) :
    ¬disk.SameFile place other :=
  fun hsame => hne (h.unshared place hplace other hother hsame)

/-- Saving an index. -/
theorem Ready.saveIndex (h : Ready config dir places disk) (fault : Option SaveFault)
    (index : Index) :
    Disk.Saved places.index places.indexTemporary index.archive.toUTF8 disk
        (disk.saveIndex fault (config.indexPath dir) index) ∧
      Ready config dir places (disk.saveIndex fault (config.indexPath dir) index).1 ∧
      (disk.saveIndex fault (config.indexPath dir) index).1.fileAt places.schema
        = disk.fileAt places.schema := by
  have hindex : places.index ∈ places.toList := by simp [Places.toList]
  have htemporary : places.indexTemporary ∈ places.toList := by simp [Places.toList]
  have hschema : places.schema ∈ places.toList := by simp [Places.toList]
  have hsaved := Disk.save_spec h.wellFormed h.layout.index h.index h.indexTemporary
    (h.not_sameFile htemporary hindex h.layout.index.ne) fault index.archive
  refine ⟨hsaved, h.frame hsaved.frame (h.unshared.renamed hindex htemporary h.layout.index.ne
    hsaved.renamed), hsaved.frame.files places.schema ?_⟩
  rw [List.mem_cons, Disk.mem_names, not_or]
  exact ⟨h.layout.apart.symm, h.not_sameFile htemporary hschema h.layout.indexApart⟩

/-- Saving a schema index. -/
theorem Ready.saveSchema (h : Ready config dir places disk) (fault : Option SaveFault)
    (schema : SchemaIndex) :
    Disk.Saved places.schema places.schemaTemporary schema.archive.toUTF8 disk
        (disk.saveSchema fault (config.schemaPath dir) schema) ∧
      Ready config dir places (disk.saveSchema fault (config.schemaPath dir) schema).1 ∧
      (disk.saveSchema fault (config.schemaPath dir) schema).1.fileAt places.index
        = disk.fileAt places.index := by
  have hschema : places.schema ∈ places.toList := by simp [Places.toList]
  have htemporary : places.schemaTemporary ∈ places.toList := by simp [Places.toList]
  have hindex : places.index ∈ places.toList := by simp [Places.toList]
  have hsaved := Disk.save_spec h.wellFormed h.layout.schema h.schema h.schemaTemporary
    (h.not_sameFile htemporary hschema h.layout.schema.ne) fault schema.archive
  refine ⟨hsaved, h.frame hsaved.frame (h.unshared.renamed hschema htemporary h.layout.schema.ne
    hsaved.renamed), hsaved.frame.files places.index ?_⟩
  rw [List.mem_cons, Disk.mem_names, not_or]
  exact ⟨h.layout.apart, h.not_sameFile htemporary hindex h.layout.schemaApart⟩

end

/-! ## Histories -/

/-- A disk and the attempts made on it, the newest first. -/
structure Session where
  disk : Disk
  attempts : List Attempt := []

/-- A request for a snapshot. -/
def Session.request (faults : Faults) (config : Config) (now : Timestamp) (dir : String)
    (rebuild : Bool) (s : Session) : Session where
  disk := (loadOrBuildWith faults config s.disk now dir rebuild).1
  attempts := (attempt? faults config s.disk now dir rebuild).toList ++ s.attempts

/-- The sessions that start with neither file kept.  Between requests everything may change but
the two files; a request may fail at any step of its saves. -/
inductive Reaches (config : Config) (dir : String) (places : Places) : Session → Prop
  | start {disk : Disk} (hready : Ready config dir places disk)
      (hindex : disk.fileAt places.index = none) (hschema : disk.fileAt places.schema = none) :
      Reaches config dir places { disk }
  | edit {s : Session} {disk : Disk} (h : Reaches config dir places s)
      (hready : Ready config dir places disk)
      (hindex : disk.fileAt places.index = s.disk.fileAt places.index)
      (hschema : disk.fileAt places.schema = s.disk.fileAt places.schema) :
      Reaches config dir places { s with disk }
  | request {s : Session} (h : Reaches config dir places s) (faults : Faults) (now : Timestamp)
      (rebuild : Bool) : Reaches config dir places (s.request faults config now dir rebuild)

/-- What the history of a session and the two files on its disk say about each other. -/
structure Holds (config : Config) (dir : String) (places : Places) (s : Session) : Prop where
  ready : Ready config dir places s.disk
  index : s.disk.fileAt places.index
    = (lastIndex? s.attempts).map fun a => a.snapshot.index.archive.toUTF8
  schema : s.disk.fileAt places.schema
    = (lastBoth? s.attempts).map fun a => a.snapshot.schema.archive.toUTF8

section

variable {config : Config} {dir : String} {places : Places} {s : Session}

/-- An attempt to keep a snapshot, however far it comes. -/
theorem Holds.keep (h : Holds config dir places s) (faults : Faults) (new : Snapshot) :
    Holds config dir places
      ⟨(keep config s.disk dir faults new).1,
        ⟨new, keptOf config s.disk dir faults new⟩ :: s.attempts⟩ := by
  obtain ⟨hready, hindex, hschema⟩ := h
  unfold Build.keep keptOf
  obtain ⟨hsaved, hready₁, hother⟩ := hready.saveIndex faults.index new.index
  rcases hfirst : s.disk.saveIndex faults.index (config.indexPath dir) new.index with
    ⟨first, e | _⟩
  · rw [hfirst] at hsaved hready₁ hother
    have hsame := hsaved.failed e rfl
    exact ⟨hready₁, hsame.trans hindex, hother.trans hschema⟩
  · rw [hfirst] at hsaved hready₁ hother
    have hkept := hsaved.kept rfl
    -- From here on the new index is in place, and nothing takes it back.
    obtain ⟨hsaved₁, hready₂, hother₁⟩ := hready₁.saveSchema faults.schema new.schema
    simp only
    rcases hsecond : first.saveSchema faults.schema (config.schemaPath dir) new.schema with
      ⟨second, e | _⟩
    · rw [hsecond] at hsaved₁ hready₂ hother₁
      have hsame := hsaved₁.failed e rfl
      exact ⟨hready₂, hother₁.trans hkept, hsame.trans (hother.trans hschema)⟩
    · rw [hsecond] at hsaved₁ hready₂ hother₁
      have hkept₁ := hsaved₁.kept rfl
      exact ⟨hready₂, hother₁.trans hkept, hkept₁⟩

/-- A request, whatever its answer. -/
theorem Holds.request (h : Holds config dir places s) (faults : Faults) (now : Timestamp)
    (rebuild : Bool) : Holds config dir places (s.request faults config now dir rebuild) := by
  unfold Session.request loadOrBuildWith attempt?
  cases reusable? config s.disk dir rebuild with
  | some kept => exact h
  | none =>
      by_cases hsource : (Source.ofConfig config dir).hasSources s.disk = true
      · simp only [hsource, if_true]
        exact h.keep faults _
      · simp only [hsource]
        exact h

/-- After any session the two files are those of the attempts that kept them last. -/
theorem holds_of_reaches (h : Reaches config dir places s) : Holds config dir places s := by
  induction h with
  | start hready hindex hschema => exact ⟨hready, hindex, hschema⟩
  | edit _ hready hindex hschema ih =>
      exact ⟨hready, hindex.trans ih.index, hschema.trans ih.schema⟩
  | request _ faults now rebuild ih => exact ih.request faults now rebuild

/-! ## Answers -/

/-- The index that is loaded after a session. -/
theorem Holds.loadIndex? (h : Holds config dir places s) :
    s.disk.loadIndex? (config.indexPath dir)
      = (lastIndex? s.attempts).bind fun a => Index.ofArchive? a.snapshot.index.archive := by
  rw [Disk.loadIndex?, Disk.readText?_eq h.ready.wellFormed h.ready.layout.index.site
    h.ready.index, h.index]
  cases lastIndex? s.attempts with
  | none => rfl
  | some a => simp only [Option.map_some, Option.bind_some, Text.strict?_toUTF8]

/-- The schema index that is loaded after a session. -/
theorem Holds.loadSchema? (h : Holds config dir places s) :
    s.disk.loadSchema? (config.schemaPath dir)
      = (lastBoth? s.attempts).bind fun a =>
          SchemaIndex.ofArchive? a.snapshot.schema.archive := by
  rw [Disk.loadSchema?, Disk.readText?_eq h.ready.wellFormed h.ready.layout.schema.site
    h.ready.schema, h.schema]
  cases lastBoth? s.attempts with
  | none => rfl
  | some a => simp only [Option.map_some, Option.bind_some, Text.strict?_toUTF8]

/-- The newest attempt that kept its index is the newest one that kept both exactly when it kept
both itself. -/
theorem lastBoth?_eq_some_iff {attempts : List Attempt} {a : Attempt}
    (h : lastIndex? attempts = some a) : lastBoth? attempts = some a ↔ a.kept = .both := by
  constructor
  · intro hboth
    have hkept := List.find?_some hboth
    simpa using hkept
  · intro hkept
    induction attempts with
    | nil => cases h
    | cons b rest ih =>
        rw [lastIndex?, List.find?_cons] at h
        rw [lastBoth?, List.find?_cons]
        cases hb : b.kept with
        | nothing =>
            rw [hb] at h
            exact ih h
        | index =>
            rw [hb] at h
            obtain rfl : b = a := Option.some.inj h
            rw [hb] at hkept
            cases hkept
        | both =>
            rw [hb] at h
            exact h

/-- An answer with a kept snapshot is what the two files hold. -/
theorem cached?_of_cache {faults : Faults} {disk disk' : Disk} {now : Timestamp} {rebuild : Bool}
    {snap : Snapshot} (h : loadOrBuildWith faults config disk now dir rebuild
      = (disk', .ok (some (snap, .cache)))) : cached? config disk dir = some snap := by
  unfold loadOrBuildWith at h
  cases hreuse : reusable? config disk dir rebuild with
  | some kept =>
      simp only [hreuse, Prod.mk.injEq, Except.ok.injEq, Option.some.injEq, and_true] at h
      rw [← h.2, ← hreuse, reusable?]
      cases rebuild with
      | false => rfl
      | true => cases hreuse
  | none =>
      simp only [hreuse] at h
      split at h
      · have hopened := congrArg Prod.snd h
        rcases keep_opened config disk dir faults
          (snapshot config disk now (Source.ofConfig config dir)) with hbuilt | ⟨e, herror⟩
        · rw [hbuilt] at hopened
          simp at hopened
        · rw [herror] at hopened
          cases hopened
      · simp at h

/-- **A served snapshot is one unit exactly when its attempt kept both files.**  Its index is that
of the newest attempt that kept its index, as written and read back, its schema index that of
the newest attempt that kept both.  These are one attempt if it kept both itself; otherwise the
index is served with an older schema index, or with no tables. -/
theorem served_of_reaches (h : Reaches config dir places s) {faults : Faults} {disk : Disk}
    {now : Timestamp} {rebuild : Bool} {snap : Snapshot}
    (hserved : loadOrBuildWith faults config s.disk now dir rebuild
      = (disk, .ok (some (snap, .cache)))) :
    ∃ a, lastIndex? s.attempts = some a ∧
      Index.ofArchive? a.snapshot.index.archive = some snap.index ∧
      snap.schema = ((lastBoth? s.attempts).bind fun b =>
        SchemaIndex.ofArchive? b.snapshot.schema.archive).getD .empty ∧
      (lastBoth? s.attempts = some a ↔ a.kept = .both) ∧
      (a.kept = .both → a.readBack? = some snap) := by
  have hholds := holds_of_reaches h
  have hcached := cached?_of_cache hserved
  rw [cached?, hholds.loadIndex?, hholds.loadSchema?, Option.map_eq_some_iff] at hcached
  obtain ⟨index, hindex, rfl⟩ := hcached
  obtain ⟨a, hlast, hindex⟩ := Option.bind_eq_some_iff.mp hindex
  have hboth := lastBoth?_eq_some_iff hlast
  refine ⟨a, hlast, hindex, rfl, hboth, ?_⟩
  intro hkept
  rw [hboth.mpr hkept, Attempt.readBack?, hindex]
  rfl

end

/-! ## A torn snapshot -/

namespace Torn

/-- A project with a source tree and a script. -/
def config : Config where
  project := { sourceRoot := "src", schemaRoot := "sql" }

/-- The places of its files. -/
def places : Places := .standard []

/-- The project with a script, and what else stands in it. -/
def disk (script : String) (others : List (Place × Entry)) : Disk where
  entries :=
    (["src"], .dir) :: (["sql"], .dir) :: (["sql", "t.sql"], .file script.toUTF8) :: others

/-- The snapshot that is built first, with one table. -/
def older : Snapshot :=
  snapshot config (disk "CREATE TABLE t (c int);" []) ⟨⟨2024, 1, 2⟩, 3, 4, 0⟩
    (Source.ofConfig config ".")

/-- What keeping it leaves behind, and a directory where a temporary file goes. -/
def others : List (Place × Entry) := [([".phpindex"], .dir),
  ([".phpindex", "index.json"], .file older.index.archive.toUTF8),
  ([".phpindex", "schema.json"], .file older.schema.archive.toUTF8),
  ([".phpindex", "schema.json.tmp"], .dir)]

/-- The snapshot that is built next, without tables. -/
def newer : Snapshot :=
  snapshot config (disk "DROP TABLE t;" others) ⟨⟨2025, 1, 2⟩, 3, 4, 0⟩
    (Source.ofConfig config ".")

/-- The session after the first snapshot was built. -/
def first : Session :=
  Session.request {} config ⟨⟨2024, 1, 2⟩, 3, 4, 0⟩ "." false
    { disk := disk "CREATE TABLE t (c int);" [] }

/-- The session after a rebuild that could keep its index only. -/
def second : Session :=
  Session.request {} config ⟨⟨2025, 1, 2⟩, 3, 4, 0⟩ "." true
    { first with disk := disk "DROP TABLE t;" others }

/-- A tree without links. -/
theorem ready_of_entries {disk : Disk} (hcwd : disk.cwd = []) (hnumbers : disk.numbers = [])
    (hparent : ∀ e ∈ disk.entries, disk.get? e.1.dropLast = some .dir)
    (hlink : ∀ e ∈ disk.entries, ∀ target, e.2 ≠ .link target) :
    Ready config "." places disk where
  layout := by
    rw [hcwd]
    exact layout_standard rfl []
  wellFormed := Disk.wellFormed_of_entries hparent (by rw [hcwd]; rfl) (by simp [hnumbers])
  unshared := Disk.unshared_of_numbers hnumbers _
  index := Disk.noLink_of_entries hlink _
  indexTemporary := Disk.noLink_of_entries hlink _
  schema := Disk.noLink_of_entries hlink _
  schemaTemporary := Disk.noLink_of_entries hlink _

/-- The project before the first request. -/
theorem ready_start : Ready config "." places (disk "CREATE TABLE t (c int);" []) := by
  refine ready_of_entries rfl rfl ?_ ?_
  · simp only [disk, List.forall_mem_cons]
    exact ⟨rfl, rfl, rfl, by simp⟩
  · simp [disk]

/-- The project before the second request. -/
theorem ready_edit : Ready config "." places (disk "DROP TABLE t;" others) := by
  refine ready_of_entries rfl rfl ?_ ?_
  · simp only [disk, others, List.forall_mem_cons]
    exact ⟨rfl, rfl, rfl, rfl, rfl, rfl, rfl, by simp⟩
  · simp [disk, others]

/-- The first snapshot was kept. -/
theorem first_attempts : first.attempts = [⟨older, .both⟩] := by
  have hreuse : reusable? config (disk "CREATE TABLE t (c int);" []) "." false = none := by
    decide +kernel
  have hsource : (Source.ofConfig config ".").hasSources (disk "CREATE TABLE t (c int);" [])
      = true := by decide +kernel
  have hkept : keptOf config (disk "CREATE TABLE t (c int);" []) "." {} older = .both := by
    decide +kernel
  rw [first, Session.request, attempt?_of_none hreuse hsource]
  exact congrArg (fun kept => [Attempt.mk older kept]) hkept

/-- The second one was kept without its schema index. -/
theorem second_attempts : second.attempts = [⟨newer, .index⟩, ⟨older, .both⟩] := by
  have hsource : (Source.ofConfig config ".").hasSources (disk "DROP TABLE t;" others) = true := by
    decide +kernel
  have hkept : keptOf config (disk "DROP TABLE t;" others) "." {} newer = .index := by
    decide +kernel
  rw [second, Session.request, attempt?_of_none rfl hsource, first_attempts]
  exact congrArg (fun kept => [Attempt.mk newer kept, ⟨older, .both⟩]) hkept

/-- The session is one that starts with neither file kept. -/
theorem reaches_second : Reaches config "." places second := by
  have hstart : Reaches config "." places { disk := disk "CREATE TABLE t (c int);" [] } :=
    .start ready_start rfl rfl
  have hfirst : Reaches config "." places first := hstart.request {} _ _
  have hholds := holds_of_reaches hfirst
  have hedit : Reaches config "." places { first with disk := disk "DROP TABLE t;" others } := by
    refine hfirst.edit ready_edit ?_ ?_
    · rw [hholds.index, first_attempts]
      rfl
    · rw [hholds.schema, first_attempts]
      rfl
  exact hedit.request {} _ _

/-- Reading back the second index. -/
theorem exists_index : ∃ index, Index.ofArchive? newer.index.archive = some index ∧
    Index.ofArchive? older.index.archive ≠ some index := by
  have hsome : (Index.ofArchive? newer.index.archive).isSome = true := by
    rw [Index.ofArchive?, Index.archive, Json.pretty, Json.parse?_ofList]
    decide +kernel
  obtain ⟨index, hindex⟩ := Option.isSome_iff_exists.mp hsome
  refine ⟨index, hindex, ?_⟩
  rw [← hindex, Index.ofArchive?, Index.archive, Json.pretty, Json.parse?_ofList,
    Index.ofArchive?, Index.archive, Json.pretty, Json.parse?_ofList]
  decide +kernel

/-- The tables differ. -/
theorem schema_ne : (SchemaIndex.ofArchive? newer.schema.archive).getD .empty
    ≠ (SchemaIndex.ofArchive? older.schema.archive).getD .empty := by
  rw [SchemaIndex.ofArchive?, SchemaIndex.archive, Json.pretty, Json.parse?_ofList,
    SchemaIndex.ofArchive?, SchemaIndex.archive, Json.pretty, Json.parse?_ofList]
  decide +kernel

/-- The attempts that the two files are from. -/
theorem last_second : lastIndex? second.attempts = some ⟨newer, .index⟩ ∧
    lastBoth? second.attempts = some ⟨older, .both⟩ := by
  rw [second_attempts]
  exact ⟨rfl, rfl⟩

/-- The next request is answered with the second index and the first tables. -/
theorem served_second (now : Timestamp) : ∃ snap,
    loadOrBuildWith {} config second.disk now "." false
        = (second.disk, .ok (some (snap, .cache))) ∧
      Index.ofArchive? newer.index.archive = some snap.index ∧
      Index.ofArchive? older.index.archive ≠ some snap.index ∧
      snap.schema = (SchemaIndex.ofArchive? older.schema.archive).getD .empty := by
  have hholds := holds_of_reaches reaches_second
  obtain ⟨index, hnewer, holder⟩ := exists_index
  have hindex : second.disk.loadIndex? (config.indexPath ".") = some index := by
    rw [hholds.loadIndex?, last_second.1, Option.bind_some]
    exact hnewer
  refine ⟨_, loadOrBuildWith_of_loadIndex? hindex {} now, hnewer, holder, ?_⟩
  rw [hholds.loadSchema?, last_second.2, Option.bind_some]

end Torn

/-- What is served comes from two attempts where the newest kept its index only. -/
theorem served_of_reaches_torn :
    Reaches Torn.config "." Torn.places Torn.second ∧ ∃ snap,
      loadOrBuildWith {} Torn.config Torn.second.disk ⟨⟨2026, 1, 2⟩, 3, 4, 0⟩ "." false
          = (Torn.second.disk, .ok (some (snap, .cache))) ∧
        ∃ a, lastIndex? Torn.second.attempts = some a ∧
          Index.ofArchive? a.snapshot.index.archive = some snap.index ∧
          snap.schema = ((lastBoth? Torn.second.attempts).bind fun b =>
            SchemaIndex.ofArchive? b.snapshot.schema.archive).getD .empty ∧
          (lastBoth? Torn.second.attempts = some a ↔ a.kept = .both) ∧
          (a.kept = .both → a.readBack? = some snap) := by
  obtain ⟨snap, hserved, -⟩ := Torn.served_second ⟨⟨2026, 1, 2⟩, 3, 4, 0⟩
  exact ⟨Torn.reaches_second, snap, hserved, served_of_reaches Torn.reaches_second hserved⟩

/-- A served snapshot need not be one unit: after a rebuild that could not keep its schema index,
its index is served with the tables of the snapshot before. -/
theorem exists_served_apart :
    ¬∀ (config : Config) (dir : String) (places : Places) (s : Session),
      Reaches config dir places s → ∀ (faults : Faults) (now : Timestamp) (rebuild : Bool)
        (disk : Disk) (snap : Snapshot), loadOrBuildWith faults config s.disk now dir rebuild
          = (disk, .ok (some (snap, .cache))) → ∃ a ∈ s.attempts, a.readBack? = some snap := by
  intro hclaim
  obtain ⟨snap, hserved, hnewer, holder, hschema⟩ :=
    Torn.served_second ⟨⟨2026, 1, 2⟩, 3, 4, 0⟩
  obtain ⟨a, hmem, hback⟩ := hclaim _ _ _ _ Torn.reaches_second _ _ _ _ _ hserved
  rw [Attempt.readBack?, Option.map_eq_some_iff] at hback
  obtain ⟨index, hindex, rfl⟩ := hback
  rw [Torn.second_attempts, List.mem_cons, List.mem_singleton] at hmem
  obtain rfl | rfl := hmem
  · exact Torn.schema_ne hschema
  · exact holder hindex

end CodeIndex.Build
