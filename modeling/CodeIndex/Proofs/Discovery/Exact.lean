import Mathlib.Data.List.Lex
import Mathlib.Data.List.Nodup
import Mathlib.Data.String.Basic
import CodeIndex.Build
import CodeIndex.Proofs.Discovery.Reading

/-!
# Discovery is exact

A walk lists the files below its root that it looks for: those whose last name has one of the
extensions, whose names with slashes between them the patterns admit, and that are not too deep.  It
lists each of them once, and neither directories nor links.  All this depends on the names below the
root only, so the same tree in another place gives the same list relative to its root.

* `mem_filesBelow_iff`, `nodup_filesBelow` : the files below a directory.
* `filesBelow_perm`, `filesBelow_congr` : in another place they are the same, and come in the same
  order if both places are met in the order of names.
* `discover_eq` : the files that are found, by their names.
* `lists_discover` : a walk finds what it looks for.
* `discover_exact` : the sources and the scripts of a project, and what is read from them.
-/

namespace CodeIndex

open Text CodeIndex.Path

/-- The entries are at different places and have proper names, everything stands in a directory, the
working directory is one, and a visit meets every file once, in whatever order. -/
structure Disk.IsTree (disk : Disk) : Prop extends disk.WellFormed where
  distinct : disk.entries.Pairwise fun e e' => e.1 ≠ e'.1
  names : ∀ e ∈ disk.entries, ∀ name ∈ e.1, IsName name
  visit : ∀ files, (disk.visit files).Perm files

namespace Disk

variable {disk : Disk} {place : Place} {entry : Entry} {names : List String}

/-- In a tree every entry is found at its place. -/
theorem IsTree.get?_eq_some_iff (h : disk.IsTree) (hne : place ≠ []) :
    disk.get? place = some entry ↔ (place, entry) ∈ disk.entries := by
  rw [get?, if_neg hne]
  refine ⟨mem_of_findEntry, ?_⟩
  have hdistinct := h.distinct
  generalize disk.entries = entries at hdistinct
  intro hmem
  induction entries with
  | nil => cases hmem
  | cons e entries ih =>
      obtain ⟨hfirst, hrest⟩ := List.pairwise_cons.mp hdistinct
      rw [findEntry]
      rcases List.mem_cons.mp hmem with rfl | hmem
      · rw [if_pos rfl]
      · rw [if_neg (hfirst _ hmem), ih hrest hmem]

/-- Whatever is there has proper names. -/
theorem IsTree.isName (h : disk.IsTree) (hthere : disk.get? (place ++ names) = some entry) :
    ∀ name ∈ names, IsName name := by
  intro name hname
  have hmem : name ∈ place ++ names := List.mem_append_right _ hname
  exact h.names _ ((h.get?_eq_some_iff (List.ne_nil_of_mem hmem)).mp hthere) name hmem

/-- The names below a root are what the place has behind it. -/
theorem namesBelow?_eq_some_iff {root : Place} :
    namesBelow? root place = some names ↔ place = root ++ names ∧ names ≠ [] := by
  have hstarts : root.isPrefixOf? place = some names ↔ root ++ names = place :=
    List.isPrefixOf?_eq_some_iff_append_eq
  rw [namesBelow?]
  split
  · rename_i hempty
    refine iff_of_false (by simp) ?_
    rintro ⟨rfl, hne⟩
    rw [hstarts.mpr rfl, Option.some.injEq] at hempty
    exact hne hempty
  · rename_i hsome
    rw [hstarts]
    refine ⟨fun h => ⟨h.symm, ?_⟩, fun h => h.1.symm⟩
    rintro rfl
    exact hsome (hstarts.mpr h)

end Disk

namespace Walk

variable {disk : Disk} {w : Walk} {root : String} {place : Place} {names : List String}

/-! ## The files below a directory -/

/-- The names of a file below a directory. -/
def fileNames? (root : Place) : Place × Entry → Option (List String)
  | (place, .file _) => Disk.namesBelow? root place
  | _ => none

/-- The names of a file below a place lead from that place to it. -/
theorem fileNames?_eq_some_iff {e : Place × Entry} : fileNames? place e = some names ↔
    e.1 = place ++ names ∧ names ≠ [] ∧ ∃ bytes, e.2 = .file bytes := by
  obtain ⟨here, entry⟩ := e
  cases entry with
  | file bytes => simp [fileNames?, Disk.namesBelow?_eq_some_iff]
  | link target => simp [fileNames?]
  | dir => simp [fileNames?]

/-- The files below a root are visited in the order of the disk. -/
theorem filesBelow_eq (disk : Disk) (root : Place) : filesBelow disk root
    = disk.visit (disk.entries.filterMap (fileNames? root)) := by
  rw [filesBelow]
  congr 2
  funext ⟨here, entry⟩
  cases entry <;> rfl

/-- They are the names that lead from the directory to a file. -/
theorem mem_filesBelow_iff (htree : disk.IsTree) : names ∈ filesBelow disk place ↔
    names ≠ [] ∧ ∃ bytes, disk.get? (place ++ names) = some (.file bytes) := by
  rw [filesBelow_eq, (htree.visit _).mem_iff, List.mem_filterMap]
  simp only [fileNames?_eq_some_iff]
  constructor
  · rintro ⟨⟨here, entry⟩, hmem, rfl, hne, bytes, rfl⟩
    exact ⟨hne, bytes, (htree.get?_eq_some_iff (by simp [hne])).mpr hmem⟩
  · rintro ⟨hne, bytes, hthere⟩
    exact ⟨_, (htree.get?_eq_some_iff (by simp [hne])).mp hthere, rfl, hne, bytes, rfl⟩

/-- None of them comes twice. -/
theorem nodup_filesBelow (htree : disk.IsTree) (place : Place) :
    (filesBelow disk place).Nodup := by
  rw [filesBelow_eq, (htree.visit _).nodup_iff]
  refine htree.distinct.filterMap _ ?_
  intro e e' hdiffer names hnames names' hnames' hsame
  obtain ⟨hplace, -⟩ := fileNames?_eq_some_iff.mp hnames
  obtain ⟨hplace', -⟩ := fileNames?_eq_some_iff.mp hnames'
  exact hdiffer (by rw [hplace, hplace', hsame])

/-- Directories with files at the same names below have the same files. -/
theorem filesBelow_perm {disk' : Disk} {place' : Place} (htree : disk.IsTree)
    (htree' : disk'.IsTree)
    (hsame : ∀ names, disk'.fileAt (place' ++ names) = disk.fileAt (place ++ names)) :
    (filesBelow disk' place').Perm (filesBelow disk place) := by
  rw [List.perm_ext_iff_of_nodup (nodup_filesBelow htree' _) (nodup_filesBelow htree _)]
  intro names
  have hfile := hsame names
  rw [mem_filesBelow_iff htree', mem_filesBelow_iff htree]
  refine and_congr_right fun _ => exists_congr fun bytes => ?_
  rw [← Disk.fileAt_eq_some_iff, ← Disk.fileAt_eq_some_iff, hfile]

/-- Where files are met in the order of their names, these are in order. -/
theorem pairwise_filesBelow (hvisit : disk.visit = sortedNames) (place : Place) :
    (filesBelow disk place).Pairwise fun a b => (!decide (b < a)) = true := by
  rw [filesBelow_eq, hvisit]
  refine List.pairwise_mergeSort ?_ ?_ _
  · intro a b c hab hbc
    simp only [Bool.not_eq_true', decide_eq_false_iff_not, not_lt] at hab hbc ⊢
    exact hab.trans hbc
  · intro a b
    simpa [imp_iff_not_or] using le_total a b

/-- There they come in one order only. -/
theorem filesBelow_congr {disk' : Disk} {place' : Place} (htree : disk.IsTree)
    (htree' : disk'.IsTree)
    (hsame : ∀ names, disk'.fileAt (place' ++ names) = disk.fileAt (place ++ names))
    (hvisit : disk.visit = sortedNames) (hvisit' : disk'.visit = sortedNames) :
    filesBelow disk' place' = filesBelow disk place := by
  refine (filesBelow_perm htree htree' hsame).eq_of_pairwise ?_ (pairwise_filesBelow hvisit' _)
    (pairwise_filesBelow hvisit _)
  intro a b _ _ hab hba
  simp only [Bool.not_eq_true', decide_eq_false_iff_not, not_lt] at hab hba
  exact le_antisymm hab hba

/-! ## The files that are found -/

/-- The patterns and the extensions admit a file of these names below a root. -/
structure Admits (config : Config) (extensions names : List String) : Prop where
  ending : ∃ name, names.getLast? = some name ∧ HasEnding extensions name
  pattern : config.shouldIndex (joinWith "/" names) = true

/-- Whether a file is accepted is seen from its names below the root. -/
theorem accepts_pathOf_iff (hroot : root ≠ "") (hnames : ∀ name ∈ names, IsName name)
    (hne : names ≠ []) :
    w.accepts root (pathOf root names) = true ↔ Admits w.config w.extensions names := by
  obtain ⟨last, hlast⟩ := Option.ne_none_iff_exists'.mp (mt List.getLast?_eq_none_iff.mp hne)
  rw [accepts, relativeTo?_pathOf hroot hnames hne, Bool.and_eq_true,
    hasExtension_pathOf hroot hnames hlast]
  constructor
  · rintro ⟨hending, hpattern⟩
    exact ⟨⟨last, hlast, hending⟩, hpattern⟩
  · rintro ⟨⟨name, hname, hending⟩, hpattern⟩
    rw [hlast, Option.some.injEq] at hname
    exact ⟨hname ▸ hending, hpattern⟩

/-- The files that are found, by their names below the root. -/
def found (w : Walk) (disk : Disk) (root : String) (place : Place) : List (List String) :=
  (filesBelow disk place).filter fun names => w.reaches names && w.accepts root (pathOf root names)

/-- What is discovered are the paths of what is found. -/
theorem discover_eq (hroot : disk.directory? root = some place) :
    w.discover disk root = (w.found disk root place).map (pathOf root) := by
  rw [discover, hroot]
  show (((filesBelow disk place).filter w.reaches).map (pathOf root)).filter (w.accepts root) = _
  rw [List.filter_map, List.filter_filter, found]
  congr 1
  exact List.filter_congr fun names _ => Bool.and_comm _ _

/-- The walk looks for a file of these names below its root. -/
structure LooksFor (w : Walk) (names : List String) : Prop where
  admits : Admits w.config w.extensions names
  depth : w.isRecursive = true ∨ names.length = 1

/-- No walk looks for the root itself. -/
theorem LooksFor.ne_nil (h : w.LooksFor names) : names ≠ [] := by
  rintro rfl
  obtain ⟨name, hname, -⟩ := h.admits.ending
  cases hname

/-- A file is found exactly if it is there and the walk looks for it. -/
theorem mem_found_iff (htree : disk.IsTree) (hroot : disk.directory? root = some place) :
    names ∈ w.found disk root place ↔
      (∃ bytes, disk.get? (place ++ names) = some (.file bytes)) ∧ w.LooksFor names := by
  have hempty := Disk.ne_empty_of_directory hroot
  rw [found, List.mem_filter, mem_filesBelow_iff htree, Bool.and_eq_true, reaches, Bool.or_eq_true,
    decide_eq_true_eq]
  constructor
  · rintro ⟨⟨hne, bytes, hthere⟩, hdepth, haccepts⟩
    have hadmits := (accepts_pathOf_iff hempty (htree.isName hthere) hne).mp haccepts
    have hpositive := List.length_pos_iff.mpr hne
    exact ⟨⟨bytes, hthere⟩, hadmits, hdepth.imp_right fun hle => by omega⟩
  · rintro ⟨⟨bytes, hthere⟩, h⟩
    refine ⟨⟨h.ne_nil, bytes, hthere⟩, h.depth.imp_right Nat.le_of_eq, ?_⟩
    exact (accepts_pathOf_iff hempty (htree.isName hthere) h.ne_nil).mpr h.admits

/-- The list of a walk: the files that are wanted below the root, each at its path, once. -/
structure Lists (w : Walk) (disk : Disk) (root : String) (place : Place)
    (Wanted : List String → Prop) : Prop where
  /-- Whatever is below the root has a path of its own, relative to which it is its names. -/
  path_inj : ∀ names names', disk.get? (place ++ names) ≠ none →
    disk.get? (place ++ names') ≠ none → pathOf root names = pathOf root names' → names = names'
  relative : ∀ names, disk.get? (place ++ names) ≠ none → names ≠ [] →
    relativeTo? (pathOf root names) root = some (joinWith "/" names)
  nodup : (w.discover disk root).Nodup
  below : ∀ path ∈ w.discover disk root,
    ∃ names, disk.get? (place ++ names) ≠ none ∧ path = pathOf root names
  /-- It is listed exactly if it is a file that is wanted. -/
  mem_iff : ∀ names entry, disk.get? (place ++ names) = some entry →
    (pathOf root names ∈ w.discover disk root ↔ (∃ bytes, entry = .file bytes) ∧ Wanted names)
  /-- The same files in another place are listed alike, in the order in which they are met there;
  and in the same order if both places are met in the order of names. -/
  moved : ∀ (disk' : Disk) root' place', disk'.IsTree → disk'.directory? root' = some place' →
    (∀ names, disk'.fileAt (place' ++ names) = disk.fileAt (place ++ names)) →
    ((w.discover disk' root').map (relativeTo? · root')).Perm
        ((w.discover disk root).map (relativeTo? · root)) ∧
      (disk.visit = sortedNames → disk'.visit = sortedNames →
        (w.discover disk' root').map (relativeTo? · root')
          = (w.discover disk root).map (relativeTo? · root))

/-- The names that were found are what is left of the listed paths. -/
theorem relativeTo?_discover (htree : disk.IsTree) (hroot : disk.directory? root = some place) :
    (w.discover disk root).map (relativeTo? · root)
      = (w.found disk root place).map fun names => some (joinWith "/" names) := by
  rw [discover_eq hroot, List.map_map]
  refine List.map_congr_left fun names hnames => ?_
  obtain ⟨⟨bytes, hthere⟩, h⟩ := (mem_found_iff htree hroot).mp hnames
  exact relativeTo?_pathOf (Disk.ne_empty_of_directory hroot) (htree.isName hthere) h.ne_nil

/-- In another place the same names of a file are accepted. -/
theorem found_eq_filter {disk' : Disk} {root' : String} {place' : Place} (htree : disk.IsTree)
    (hroot : disk.directory? root = some place) (htree' : disk'.IsTree)
    (hroot' : disk'.directory? root' = some place')
    (hsame : ∀ names, disk'.fileAt (place' ++ names) = disk.fileAt (place ++ names)) :
    w.found disk' root' place' = (filesBelow disk' place').filter fun names =>
      w.reaches names && w.accepts root (pathOf root names) := by
  refine List.filter_congr fun names hnames => ?_
  have hmem := (filesBelow_perm htree htree' hsame).mem_iff.mp hnames
  obtain ⟨hne, bytes, hthere⟩ := (mem_filesBelow_iff htree).mp hmem
  have hproper := htree.isName hthere
  congr 1
  rw [Bool.eq_iff_iff, accepts_pathOf_iff (Disk.ne_empty_of_directory hroot') hproper hne,
    accepts_pathOf_iff (Disk.ne_empty_of_directory hroot) hproper hne]

/-- A walk finds what it looks for. -/
theorem lists_discover (w : Walk) (htree : disk.IsTree)
    (hroot : disk.directory? root = some place) : Lists w disk root place w.LooksFor := by
  have hempty := Disk.ne_empty_of_directory hroot
  have hproper : ∀ names, disk.get? (place ++ names) ≠ none → ∀ name ∈ names, IsName name := by
    intro names hthere
    obtain ⟨entry, hentry⟩ := Option.ne_none_iff_exists'.mp hthere
    exact htree.isName hentry
  have hinj : ∀ names names', disk.get? (place ++ names) ≠ none →
      disk.get? (place ++ names') ≠ none → pathOf root names = pathOf root names' →
      names = names' :=
    fun names names' hthere hthere' => pathOf_inj hempty (hproper _ hthere) (hproper _ hthere')
  have hfound : ∀ names ∈ w.found disk root place, disk.get? (place ++ names) ≠ none := by
    intro names hnames
    obtain ⟨⟨bytes, hthere⟩, -⟩ := (mem_found_iff htree hroot).mp hnames
    rw [hthere]
    exact Option.some_ne_none _
  refine ⟨hinj, ?_, ?_, ?_, ?_, ?_⟩
  · exact fun names hthere hne => relativeTo?_pathOf hempty (hproper _ hthere) hne
  · rw [discover_eq hroot]
    refine List.Nodup.map_on ?_ ((nodup_filesBelow htree place).filter _)
    exact fun names hnames names' hnames' => hinj _ _ (hfound _ hnames) (hfound _ hnames')
  · intro path hpath
    rw [discover_eq hroot] at hpath
    obtain ⟨names, hnames, rfl⟩ := List.mem_map.mp hpath
    exact ⟨names, hfound _ hnames, rfl⟩
  · intro names entry hthere
    have hsome : disk.get? (place ++ names) ≠ none := by
      rw [hthere]
      exact Option.some_ne_none _
    have hmem : pathOf root names ∈ w.discover disk root ↔ names ∈ w.found disk root place := by
      rw [discover_eq hroot, List.mem_map]
      refine ⟨?_, fun hnames => ⟨names, hnames, rfl⟩⟩
      rintro ⟨names', hnames', hsame⟩
      rwa [← hinj _ _ (hfound _ hnames') hsome hsame]
    rw [hmem, mem_found_iff htree hroot, hthere]
    simp only [Option.some.injEq]
  · intro disk' root' place' htree' hroot' hsame
    rw [relativeTo?_discover htree hroot, relativeTo?_discover htree' hroot',
      found_eq_filter htree hroot htree' hroot' hsame]
    refine ⟨((filesBelow_perm htree htree' hsame).filter _).map _, fun hvisit hvisit' => ?_⟩
    rw [filesBelow_congr htree htree' hsame hvisit hvisit', found]

/-- What is wanted may be said in other words. -/
theorem Lists.congr {Wanted Wanted' : List String → Prop} (h : Lists w disk root place Wanted)
    (hsame : ∀ names, Wanted names ↔ Wanted' names) : Lists w disk root place Wanted' :=
  { h with
    mem_iff := fun names entry hthere =>
      (h.mem_iff names entry hthere).trans (and_congr_right fun _ => hsame names) }

/-- A discovered path has one of the endings. -/
theorem hasExtension_of_mem_discover {path : String} (hpath : path ∈ w.discover disk root) :
    hasExtension w.extensions path = true := by
  rw [discover] at hpath
  split at hpath
  · cases hpath
  · obtain ⟨-, haccepts⟩ := List.mem_filter.mp hpath
    rw [accepts, Bool.and_eq_true] at haccepts
    exact haccepts.1

end Walk

/-! ## What is read -/

namespace Build

variable {α : Type} {disk : Disk} {extensions files : List String}
  {parse : String → String → List α}

/-- What a file yields: what is parsed from its bytes, or nothing when it cannot be read. -/
def yielded (disk : Disk) (parse : String → String → List α) (path : String) : List α :=
  match disk.read path with
  | .ok bytes => parse path (Text.lenient bytes)
  | .error _ => []

/-- The items of files, each of which may be parsed: what they yield, one after the other. -/
structure Collects (disk : Disk) (extensions : List String) (parse : String → String → List α)
    (files : List String) (items : List α) : Prop where
  parsable : ∀ path ∈ files, Path.hasExtension extensions path = true
  items_eq : items = files.flatMap (yielded disk parse)
  /-- A file that cannot be read might as well not be listed. -/
  unreadable : ∀ before path after cause, files = before ++ path :: after →
    disk.read path = .error cause → items = (before ++ after).flatMap (yielded disk parse)

/-- A part that first asks for an extension collects the items of files that have it. -/
theorem collects_flatMap {items : String → List α}
    (hparsable : ∀ path ∈ files, Path.hasExtension extensions path = true)
    (hitems : ∀ path, items path
      = if Path.hasExtension extensions path then yielded disk parse path else []) :
    Collects disk extensions parse files (files.flatMap items) := by
  have heq : files.flatMap items = files.flatMap (yielded disk parse) := by
    refine List.flatMap_congr fun path hpath => ?_
    rw [hitems, if_pos (hparsable path hpath)]
  refine ⟨hparsable, heq, ?_⟩
  rintro before path after cause rfl hread
  have hnone : yielded disk parse path = [] := by rw [yielded, hread]
  rw [heq, List.flatMap_append, List.flatMap_cons, hnone, List.nil_append, List.flatMap_append]

end Build

/-- Discovery below a root is exact: the sources and the scripts are the files that the
configuration asks for, and what they yield, one after the other, is what is read. -/
structure Discovered (config : Config) (disk : Disk) (root : String) (place : Place) : Prop where
  sources : Walk.Lists (.forSources config) disk root place
    (Walk.Admits config config.indexing.extensions)
  scripts : Walk.Lists (.forSchema config) disk root place fun names =>
    Walk.Admits config config.indexing.schemaExtensions names ∧
      (config.indexing.schemaRecursive = true ∨ names.length = 1)
  /-- The bytes at a path are those of the file below the root, unless the path is too long. -/
  read : ∀ names bytes, names ≠ [] → disk.get? (place ++ names) = some (.file bytes) →
    (∀ name ∈ names, name.utf8ByteSize ≤ Disk.nameLimit) →
    (Walk.pathOf root names).utf8ByteSize ≤ Disk.pathLimit →
    disk.read (Walk.pathOf root names) = .ok bytes
  declarations : Build.Collects disk config.indexing.extensions Php.parseDeclarations
    ((Walk.forSources config).discover disk root)
    (Build.sequential config disk ((Walk.forSources config).discover disk root))
  tables : Build.Collects disk config.indexing.schemaExtensions
    (fun _ => Sql.parseTables config.schema.tablePrefix)
    ((Walk.forSchema config).discover disk root) (Build.tables config disk root)

/-- **Discovery is exact.**  Below a root that is a directory of a tree, the sources are the files
with a source extension that the patterns admit by their names below the root, wherever the root is,
and the scripts are those with a script extension, at the first level unless all are asked for.
Each is listed once, and what is read is what they yield one after the other. -/
theorem discover_exact (config : Config) {disk : Disk} (htree : disk.IsTree) {root : String}
    {place : Place} (hroot : disk.directory? root = some place) :
    Discovered config disk root place where
  sources := by
    refine (Walk.lists_discover _ htree hroot).congr fun names => ?_
    exact ⟨fun h => h.admits, fun h => ⟨h, .inl rfl⟩⟩
  scripts := by
    refine (Walk.lists_discover _ htree hroot).congr fun names => ?_
    exact ⟨fun h => ⟨h.admits, h.depth⟩, fun h => ⟨h.1, h.2⟩⟩
  read := by
    intro names bytes hne hfile hsizes hshort
    exact Disk.read_pathOf htree.toWellFormed hroot (htree.isName hfile) hne hsizes hshort hfile
  declarations :=
    Build.collects_flatMap (fun _ => Walk.hasExtension_of_mem_discover) fun _ => rfl
  tables :=
    Build.collects_flatMap (fun _ => Walk.hasExtension_of_mem_discover) fun _ => rfl

/-- A source tree in a directory that is excluded below a root: a source in capitals, a directory
and a link with names like it, a directory of the excluded name, and scripts at two levels.  Its
files are met from the last to the first. -/
def vendored : Disk where
  visit := List.reverse
  entries :=
    let app := ["srv", "node_modules", "app"]
    [(["srv"], .dir), (["srv", "node_modules"], .dir), (app, .dir),
      (app ++ ["A.PHP"], .file "<?php class A {}".toUTF8), (app ++ ["b.php"], .dir),
      (app ++ ["b.php", "more.sql"], .file "".toUTF8), (app ++ ["base.sql"], .file "".toUTF8),
      (app ++ ["c.php"], .link "A.PHP"), (app ++ ["node_modules"], .dir),
      (app ++ ["node_modules", "d.php"], .file "<?php class D {}".toUTF8)]

/-- The tree below an excluded directory. -/
theorem discover_exact_vendored :
    vendored.IsTree ∧
      vendored.directory? "/srv/node_modules/app/" = some ["srv", "node_modules", "app"] ∧
      Discovered {} vendored "/srv/node_modules/app/" ["srv", "node_modules", "app"] ∧
      (Walk.forSources {}).discover vendored "/srv/node_modules/app/"
        = ["/srv/node_modules/app/A.PHP"] ∧
      (Walk.forSchema {}).discover vendored "/srv/node_modules/app/"
        = ["/srv/node_modules/app/base.sql"] := by
  have htree : vendored.IsTree := by
    refine ⟨Disk.wellFormed_of_entries ?_ rfl (by simp [vendored]), by decide, ?_,
      List.reverse_perm⟩
    · simp [vendored, Disk.get?, Disk.findEntry]
    · simp only [isName_iff]
      decide
  have hroot : vendored.directory? "/srv/node_modules/app/"
      = some ["srv", "node_modules", "app"] := by decide +kernel
  have hfiles : Walk.filesBelow vendored ["srv", "node_modules", "app"]
      = [["node_modules", "d.php"], ["base.sql"], ["b.php", "more.sql"], ["A.PHP"]] := by
    decide +kernel
  refine ⟨htree, hroot, discover_exact {} htree hroot, ?_, ?_⟩
  · rw [Walk.discover_eq hroot, Walk.found, hfiles]
    decide +kernel
  · rw [Walk.discover_eq hroot, Walk.found, hfiles]
    decide +kernel

end CodeIndex
