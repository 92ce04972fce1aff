import Mathlib.Data.List.Infix
import CodeIndex.Disk.Store

/-!
# What writing leaves as it was

Whether the file at a place is still there after other places were written depends on the tree
alone: on a tree in which everything stands in a directory, writing a file changes the names of
that file only, making a directory changes nothing else, and moving a file takes only its old name
and its new one.  `Frame` says so of two disks, with the places that may differ, and passes from one
step to the next.

* `sameFile_symm`, `sameFile_trans` : names of one file.
* `get?_fill`, `get?_rename`, `number?_rename` : what writing and moving a file leave behind.
* `frame_fill`, `frame_rename` : that they leave the rest as it was.
* `grows_makeDirs`, `Grows.frame` : making directories adds directories and changes no file.
-/

namespace CodeIndex.Disk

/-- The bytes of the file that stands at a place. -/
def fileAt (disk : Disk) (place : Place) : Option ByteArray :=
  match disk.get? place with
  | some (.file bytes) => some bytes
  | _ => none

/-- The bytes at a place are those of a file there. -/
theorem fileAt_eq_some_iff {disk : Disk} {place : Place} {bytes : ByteArray} :
    disk.fileAt place = some bytes ↔ disk.get? place = some (.file bytes) := by
  rw [fileAt]
  split
  · rename_i there hthere
    simp [hthere]
  · rename_i hnone
    exact iff_of_false (by simp) (hnone bytes)

/-! ## Names of one file -/

/-- The places are names of one file. -/
abbrev SameFile (disk : Disk) (place other : Place) : Prop := disk.sameFile place other = true

/-- Two places are names of one file if they are one, or have one number. -/
theorem sameFile_iff {disk : Disk} {place other : Place} : disk.SameFile place other ↔
    place = other ∨ ∃ n, disk.number? place = some n ∧ disk.number? other = some n := by
  rw [SameFile, sameFile, Bool.or_eq_true, Bool.and_eq_true, beq_iff_eq, beq_iff_eq,
    Option.isSome_iff_exists]
  constructor
  · rintro (hplace | ⟨⟨n, hn⟩, hsame⟩)
    · exact .inl hplace
    · exact .inr ⟨n, hn, hsame ▸ hn⟩
  · rintro (hplace | ⟨n, hn, hother⟩)
    · exact .inl hplace
    · exact .inr ⟨⟨n, hn⟩, hn.trans hother.symm⟩

/-- Every place is a name of its own file. -/
theorem sameFile_refl (disk : Disk) (place : Place) : disk.SameFile place place :=
  sameFile_iff.mpr (.inl rfl)

/-- The order of the two names does not matter. -/
theorem sameFile_symm {disk : Disk} {place other : Place} (h : disk.SameFile place other) :
    disk.SameFile other place := by
  rw [sameFile_iff] at h ⊢
  rcases h with rfl | ⟨n, hn, hother⟩
  · exact .inl rfl
  · exact .inr ⟨n, hother, hn⟩

/-- Names of one file go together. -/
theorem sameFile_trans {disk : Disk} {place other third : Place} (h : disk.SameFile place other)
    (h' : disk.SameFile other third) : disk.SameFile place third := by
  rw [sameFile_iff] at h h' ⊢
  rcases h with rfl | ⟨n, hn, hother⟩
  · exact h'
  · rcases h' with rfl | ⟨m, hm, hthird⟩
    · exact .inr ⟨n, hn, hother⟩
    · exact .inr ⟨n, hn, by rw [hthird, ← hm, hother]⟩

/-- Whether two places are names of one file depends on their numbers. -/
theorem sameFile_congr {disk disk' : Disk} {place other : Place}
    (hplace : disk'.number? place = disk.number? place)
    (hother : disk'.number? other = disk.number? other) :
    disk'.SameFile place other ↔ disk.SameFile place other := by
  rw [sameFile_iff, sameFile_iff, hplace, hother]

/-- A place with a number is listed with it. -/
theorem mem_of_number? {disk : Disk} {place : Place} {n : Nat} (h : disk.number? place = some n) :
    (place, n) ∈ disk.numbers := by
  rw [number?, List.lookup_eq_some_iff] at h
  obtain ⟨front, back, hnumbers, -⟩ := h
  rw [hnumbers]
  simp

/-- The names of a file are the places that are names of it. -/
theorem mem_names {disk : Disk} {place other : Place} :
    other ∈ disk.names place ↔ disk.SameFile place other := by
  rw [names, List.mem_cons, List.mem_filter]
  constructor
  · rintro (rfl | ⟨-, hsame⟩)
    · exact sameFile_refl disk other
    · exact hsame
  · intro h
    rcases sameFile_iff.mp h with rfl | ⟨n, -, hn⟩
    · exact .inl rfl
    · exact .inr ⟨List.mem_map_of_mem (mem_of_number? hn), h⟩

/-! ## Well-formed trees -/

/-- Everything stands in a directory, and the working directory is one.  What has a number is
there and is no directory, and the names of one file show the same. -/
structure WellFormed (disk : Disk) : Prop where
  parent : ∀ place name, disk.get? (place ++ [name]) ≠ none → disk.get? place = some .dir
  cwd : disk.get? disk.cwd = some .dir
  numbered : ∀ place n, disk.number? place = some n → ∃ entry, entry ≠ .dir ∧
    ∀ other, disk.number? other = some n → disk.get? other = some entry

/-- What is found at a place is one of the entries. -/
theorem mem_of_findEntry {place : Place} {entry : Entry} {entries : List (Place × Entry)}
    (h : findEntry place entries = some entry) : (place, entry) ∈ entries := by
  induction entries with
  | nil => cases h
  | cons e entries ih =>
      obtain ⟨here, first⟩ := e
      rw [findEntry] at h
      by_cases hhere : here = place
      · rw [if_pos hhere, Option.some.injEq] at h
        rw [hhere, h]
        exact List.mem_cons_self
      · rw [if_neg hhere] at h
        exact List.mem_cons_of_mem _ (ih h)

/-- It is enough to look at the entries, each at its place, and at the listed numbers. -/
theorem wellFormed_of_entries {disk : Disk}
    (hparent : ∀ e ∈ disk.entries, disk.get? e.1.dropLast = some .dir)
    (hcwd : disk.get? disk.cwd = some .dir)
    (hnumbers : ∀ e ∈ disk.numbers, ∃ entry, entry ≠ .dir ∧
      ∀ other ∈ disk.numbers, other.2 = e.2 → disk.get? other.1 = some entry) :
    disk.WellFormed where
  cwd := hcwd
  numbered := by
    intro place n hn
    obtain ⟨entry, hdir, hentry⟩ := hnumbers _ (mem_of_number? hn)
    exact ⟨entry, hdir, fun other hother => hentry _ (mem_of_number? hother) rfl⟩
  parent := by
    intro place name hthere
    obtain ⟨entry, hentry⟩ := Option.ne_none_iff_exists'.mp hthere
    rw [get?, if_neg (by simp)] at hentry
    have hdir := hparent _ (mem_of_findEntry hentry)
    rwa [List.dropLast_concat] at hdir

/-- What leads to something that is there is a directory. -/
theorem WellFormed.of_prefix {disk : Disk} (h : disk.WellFormed) {front place : Place}
    (hfront : front <+: place) (hne : front ≠ place) (hplace : disk.get? place ≠ none) :
    disk.get? front = some .dir := by
  obtain ⟨back, rfl⟩ := hfront
  induction back using List.reverseRecOn with
  | nil => exact absurd (List.append_nil front).symm hne
  | append_singleton back name ih =>
      rw [← List.append_assoc] at hplace
      have hdir := h.parent _ _ hplace
      by_cases hback : front = front ++ back
      · rw [hback]
        exact hdir
      · exact ih hback (by rw [hdir]; simp)

/-- Names of one file show the same. -/
theorem WellFormed.get?_eq {disk : Disk} (h : disk.WellFormed) {place other : Place}
    (hsame : disk.SameFile place other) : disk.get? other = disk.get? place := by
  rcases sameFile_iff.mp hsame with rfl | ⟨n, hn, hother⟩
  · rfl
  · obtain ⟨entry, -, hentry⟩ := h.numbered place n hn
    rw [hentry place hn, hentry other hother]

/-- A free place has no number. -/
theorem WellFormed.number?_eq_none {disk : Disk} (h : disk.WellFormed) {place : Place}
    (hfree : disk.get? place = none ∨ disk.get? place = some .dir) : disk.number? place = none := by
  rw [Option.eq_none_iff_forall_ne_some]
  intro n hn
  obtain ⟨entry, hdir, hentry⟩ := h.numbered place n hn
  rw [hentry place hn] at hfree
  rcases hfree with hnone | hthere
  · cases hnone
  · exact hdir (Option.some.inj hthere)

/-- No name of a file is the root. -/
theorem WellFormed.ne_nil_of_mem_names {disk : Disk} (h : disk.WellFormed) {place other : Place}
    (hne : place ≠ []) (hmem : other ∈ disk.names place) : other ≠ [] := by
  rcases sameFile_iff.mp (mem_names.mp hmem) with rfl | ⟨n, -, hn⟩
  · exact hne
  · rintro rfl
    rw [h.number?_eq_none (.inr rfl)] at hn
    cases hn

/-- Where no directory is lost and everything stands in one that was there before, everything
stands in a directory. -/
theorem WellFormed.of_dirs {disk disk' : Disk} (h : disk.WellFormed)
    (hdirs : ∀ place, disk.get? place = some .dir → disk'.get? place = some .dir)
    (hthere : ∀ place name, disk'.get? (place ++ [name]) ≠ none → disk.get? place = some .dir)
    (hcwd : disk'.cwd = disk.cwd)
    (hnumbered : ∀ place n, disk'.number? place = some n → ∃ entry, entry ≠ .dir ∧
      ∀ other, disk'.number? other = some n → disk'.get? other = some entry) :
    disk'.WellFormed where
  parent := fun place name hchild => hdirs _ (hthere place name hchild)
  cwd := by
    rw [hcwd]
    exact hdirs _ h.cwd
  numbered := hnumbered

/-- The directory that a directory stands in. -/
theorem WellFormed.dropLast {disk : Disk} (h : disk.WellFormed) {place : Place}
    (hplace : disk.get? place = some .dir) : disk.get? place.dropLast = some .dir := by
  by_cases hnil : place = []
  · rw [hnil]
    rfl
  · apply h.parent place.dropLast (place.getLast hnil)
    rw [List.dropLast_concat_getLast hnil, hplace]
    simp

/-- The two disks differ in the files at the given places only; there are no new links, and
everything still stands in a directory. -/
structure Frame (touched : List Place) (disk disk' : Disk) : Prop where
  cwd : disk'.cwd = disk.cwd
  wellFormed : disk'.WellFormed
  links : ∀ place target, disk'.get? place = some (.link target) →
    disk.get? place = some (.link target)
  files : ∀ place, place ∉ touched → disk'.fileAt place = disk.fileAt place

namespace Frame

variable {touched : List Place} {disk disk' disk'' : Disk}

/-- A disk against itself. -/
theorem refl (h : disk.WellFormed) : Frame touched disk disk where
  cwd := rfl
  wellFormed := h
  links := fun _ _ hlink => hlink
  files := fun _ _ => rfl

/-- One step after another. -/
theorem trans (h : Frame touched disk disk') (h' : Frame touched disk' disk'') :
    Frame touched disk disk'' where
  cwd := h'.cwd.trans h.cwd
  wellFormed := h'.wellFormed
  links := fun place target hlink => h.links place target (h'.links place target hlink)
  files := fun place hplace => (h'.files place hplace).trans (h.files place hplace)

/-- More places may differ. -/
theorem mono {more : List Place} (hmore : ∀ place ∈ touched, place ∈ more)
    (h : Frame touched disk disk') : Frame more disk disk' where
  cwd := h.cwd
  wellFormed := h.wellFormed
  links := h.links
  files := fun place hplace => h.files place fun htouched => hplace (hmore place htouched)

end Frame

/-! ## Single steps -/

/-- What stands at a place after another was written. -/
theorem get?_put (disk : Disk) {place : Place} (hne : place ≠ []) (entry : Entry)
    (other : Place) :
    (disk.put place entry).get? other = if other = place then some entry else disk.get? other := by
  by_cases h : other = place
  · rw [if_pos h, h, get?_put_self disk hne]
  · rw [if_neg h, get?_put_of_ne disk h]

/-- Making a directory at a free place keeps everything in a directory. -/
theorem WellFormed.put_dir {disk : Disk} (hwf : disk.WellFormed) {parent : Place} {name : String}
    (hparent : disk.get? parent = some .dir) (hfree : disk.get? (parent ++ [name]) = none) :
    (disk.put (parent ++ [name]) .dir).WellFormed := by
  have hne : parent ++ [name] ≠ [] := by simp
  have hget := get?_put disk hne .dir
  refine hwf.of_dirs ?_ ?_ rfl ?_
  · intro place hdir
    rw [hget]
    split
    · rfl
    · exact hdir
  · intro place child hchild
    rw [hget] at hchild
    split at hchild
    · rename_i heq
      obtain ⟨rfl, -⟩ := List.append_inj' heq rfl
      exact hparent
    · exact hwf.parent place child hchild
  · intro place n hn
    obtain ⟨entry, hdir, hentry⟩ := hwf.numbered place n hn
    refine ⟨entry, hdir, fun other hother => ?_⟩
    rw [hget, if_neg, hentry other hother]
    rintro rfl
    rw [hentry _ hother] at hfree
    cases hfree

/-- What stands at a place after an entry was written at some others. -/
theorem get?_foldl_put (entry : Entry) (other : Place) {places : List Place}
    (h : ∀ place ∈ places, place ≠ []) (disk : Disk) :
    (places.foldl (fun disk place => disk.put place entry) disk).get? other
      = if other ∈ places then some entry else disk.get? other := by
  induction places generalizing disk with
  | nil => rfl
  | cons place places ih =>
      obtain ⟨hplace, hplaces⟩ := List.forall_mem_cons.mp h
      rw [List.foldl_cons, ih hplaces, get?_put disk hplace]
      by_cases hother : other ∈ places
      · simp [hother]
      · simp [hother]

/-- Writing entries changes neither the working directory nor the numbers. -/
theorem foldl_put_eq (entry : Entry) (places : List Place) (disk : Disk) :
    (places.foldl (fun disk place => disk.put place entry) disk).cwd = disk.cwd ∧
      (places.foldl (fun disk place => disk.put place entry) disk).numbers = disk.numbers := by
  induction places generalizing disk with
  | nil => exact ⟨rfl, rfl⟩
  | cons place places ih => exact ih (disk.put place entry)

/-- **Writing a file.**  All its names show the bytes, and nothing else changes. -/
theorem get?_fill {disk : Disk} (hwf : disk.WellFormed) {place : Place} (hne : place ≠ [])
    (bytes : ByteArray) (other : Place) : (disk.fill place bytes).get? other
      = if other ∈ disk.names place then some (.file bytes) else disk.get? other :=
  get?_foldl_put _ other (fun _ hmem => hwf.ne_nil_of_mem_names hne hmem) disk

/-- Writing into a file leaves the working directory. -/
@[simp] theorem cwd_fill (disk : Disk) (place : Place) (bytes : ByteArray) :
    (disk.fill place bytes).cwd = disk.cwd :=
  (foldl_put_eq _ _ disk).1

/-- Writing into a file leaves the numbers of all files. -/
@[simp] theorem number?_fill (disk : Disk) (place : Place) (bytes : ByteArray) (other : Place) :
    (disk.fill place bytes).number? other = disk.number? other :=
  congrArg (List.lookup other) (foldl_put_eq _ _ disk).2

/-- A place where a file stands, or nothing, so that no way goes on behind it. -/
def DeadEnd (disk : Disk) (place : Place) : Prop :=
  ∀ entry, disk.get? place = some entry → ∃ bytes, entry = .file bytes

/-- It is no directory. -/
theorem DeadEnd.ne_dir {disk : Disk} {place : Place} (h : disk.DeadEnd place) :
    disk.get? place ≠ some .dir := by
  intro hdir
  obtain ⟨bytes, hbytes⟩ := h _ hdir
  cases hbytes

/-- All names of a file are such places. -/
theorem WellFormed.deadEnd_of_mem_names {disk : Disk} (hwf : disk.WellFormed) {place other : Place}
    (h : disk.DeadEnd place) (hmem : other ∈ disk.names place) : disk.DeadEnd other := by
  intro entry hentry
  rw [hwf.get?_eq (mem_names.mp hmem)] at hentry
  exact h entry hentry

/-- Writing a file in a directory keeps everything in a directory. -/
theorem WellFormed.fill {disk : Disk} (hwf : disk.WellFormed) {parent : Place} {name : String}
    (hparent : disk.get? parent = some .dir) (hend : disk.DeadEnd (parent ++ [name]))
    (bytes : ByteArray) : (disk.fill (parent ++ [name]) bytes).WellFormed := by
  have hne : parent ++ [name] ≠ [] := by simp
  have hget := get?_fill hwf hne bytes
  refine hwf.of_dirs ?_ ?_ (by simp) ?_
  · intro place hdir
    rw [hget, if_neg, hdir]
    exact fun hmem => (hwf.deadEnd_of_mem_names hend hmem).ne_dir hdir
  · intro place child hchild
    by_cases hthere : disk.get? (place ++ [child]) = none
    · -- Only the written place itself may have been free: other names of a file are there.
      rw [hget] at hchild
      split at hchild
      · rename_i hmem
        rcases sameFile_iff.mp (mem_names.mp hmem) with heq | ⟨n, -, hn⟩
        · obtain ⟨rfl, -⟩ := List.append_inj' heq rfl
          exact hparent
        · rw [hwf.number?_eq_none (.inl hthere)] at hn
          cases hn
      · exact absurd hthere hchild
    · exact hwf.parent place child hthere
  · intro place n hn
    rw [number?_fill] at hn
    obtain ⟨entry, hdir, hentry⟩ := hwf.numbered place n hn
    by_cases hmem : place ∈ disk.names (parent ++ [name])
    · refine ⟨.file bytes, by simp, fun other hother => ?_⟩
      rw [number?_fill] at hother
      rw [hget, if_pos]
      exact mem_names.mpr (sameFile_trans (mem_names.mp hmem)
        (sameFile_iff.mpr (.inr ⟨n, hn, hother⟩)))
    · refine ⟨entry, hdir, fun other hother => ?_⟩
      rw [number?_fill] at hother
      rw [hget, if_neg, hentry other hother]
      exact fun hmem' => hmem (mem_names.mpr (sameFile_trans (mem_names.mp hmem')
        (sameFile_iff.mpr (.inr ⟨n, hother, hn⟩))))

/-- Writing a file in a directory. -/
theorem frame_fill {disk : Disk} (hwf : disk.WellFormed) {parent : Place} {name : String}
    (hparent : disk.get? parent = some .dir) (hend : disk.DeadEnd (parent ++ [name]))
    (bytes : ByteArray) :
    Frame (disk.names (parent ++ [name])) disk (disk.fill (parent ++ [name]) bytes) := by
  have hne : parent ++ [name] ≠ [] := by simp
  have hget := get?_fill hwf hne bytes
  refine ⟨by simp, hwf.fill hparent hend bytes, ?_, ?_⟩
  · intro place target hlink
    rw [hget] at hlink
    split at hlink
    · cases hlink
    · exact hlink
  · intro place hother
    rw [fileAt, fileAt, hget, if_neg hother]

/-- What is found among entries from which a place and all below it was removed. -/
theorem findEntry_filter (place other : Place) (entries : List (Place × Entry)) :
    findEntry other (entries.filter fun e => !place.isPrefixOf e.1)
      = if place <+: other then none else findEntry other entries := by
  induction entries with
  | nil => simp [findEntry]
  | cons e entries ih =>
      obtain ⟨here, entry⟩ := e
      by_cases hfront : place <+: here
      · rw [List.filter_cons_of_neg (by simpa using hfront), ih, findEntry]
        by_cases hother : place <+: other
        · simp [hother]
        · rw [if_neg hother, if_neg hother, if_neg]
          rintro rfl
          exact hother hfront
      · rw [List.filter_cons_of_pos (by simpa [← Bool.not_eq_true] using hfront), findEntry,
          findEntry, ih]
        by_cases hhere : here = other
        · rw [if_pos hhere, if_pos hhere, if_neg (hhere ▸ hfront)]
        · rw [if_neg hhere, if_neg hhere]

/-- What stands at a place after another was removed. -/
theorem get?_erase (disk : Disk) (place other : Place) :
    (disk.erase place).get? other = if other = [] then some .dir
      else if place <+: other then none else disk.get? other := by
  unfold get? erase
  by_cases hroot : other = []
  · rw [if_pos hroot, if_pos hroot]
  · rw [if_neg hroot, if_neg hroot, if_neg hroot]
    exact findEntry_filter place other disk.entries

/-- Removing what is no directory takes nothing else away. -/
theorem get?_erase_of_ne {disk : Disk} (hwf : disk.WellFormed) {place : Place}
    (hplace : disk.get? place ≠ some .dir) {other : Place} (hother : other ≠ place) :
    (disk.erase place).get? other = disk.get? other := by
  rw [get?_erase]
  by_cases hroot : other = []
  · rw [if_pos hroot, hroot]
    rfl
  · rw [if_neg hroot]
    by_cases hfront : place <+: other
    · rw [if_pos hfront]
      by_contra hthere
      exact hplace (hwf.of_prefix hfront (Ne.symm hother) (Ne.symm hthere))
    · rw [if_neg hfront]

/-- What is removed is gone. -/
theorem get?_erase_self (disk : Disk) {place : Place} (hne : place ≠ []) :
    (disk.erase place).get? place = none := by
  rw [get?_erase, if_neg hne, if_pos (List.prefix_refl place)]

/-- **Moving a file.**  It stands at the target, and where it was there is nothing. -/
theorem get?_rename {disk : Disk} (hwf : disk.WellFormed) {origin target : Place} {entry : Entry}
    (horigin : disk.get? origin ≠ some .dir) (hne : origin ≠ target) (htarget : target ≠ [])
    (place : Place) : (disk.rename origin target entry).get? place
      = if place = target then some entry else if place = origin then none
        else disk.get? place := by
  show ((disk.erase origin).put target entry).get? place = _
  have hroot : origin ≠ [] := by
    rintro rfl
    exact horigin rfl
  rw [get?_put _ htarget]
  by_cases hplace : place = origin
  · rw [hplace, if_neg hne, if_neg hne, if_pos rfl, get?_erase_self _ hroot]
  · rw [if_neg hplace, get?_erase_of_ne hwf horigin hplace]

/-- Looking up a place in a list of numbers, entry by entry. -/
theorem lookup_cons_eq (place here : Place) (n : Nat) (numbers : List (Place × Nat)) :
    ((here, n) :: numbers).lookup place = if place = here then some n else numbers.lookup place := by
  rw [List.lookup_cons]
  by_cases h : place = here
  · rw [if_pos h, h, beq_self_eq_true]
  · rw [if_neg h, beq_eq_false_iff_ne.mpr h]

/-- The numbers after one name of a file was taken to a target. -/
theorem lookup_renumber {origin target : Place} (hne : origin ≠ target) (place : Place)
    (numbers : List (Place × Nat)) : (renumber origin target numbers).lookup place
      = if place = target then numbers.lookup origin else if place = origin then none
        else numbers.lookup place := by
  induction numbers with
  | nil => simp [renumber]
  | cons first numbers ih =>
      obtain ⟨here, n⟩ := first
      rw [renumber] at ih
      by_cases horigin : here = origin
      · subst horigin
        simp only [renumber, List.filterMap_cons, if_true, lookup_cons_eq, ih]
        by_cases hplace : place = target
        · simp only [hplace, if_true]
        · by_cases hself : place = here
          · simp only [hself, if_neg hne, if_true]
          · simp only [hplace, hself, if_false]
      · by_cases htarget : here = target
        · subst htarget
          simp only [renumber, List.filterMap_cons, if_neg horigin, if_true, lookup_cons_eq, ih,
            if_neg hne]
          by_cases hplace : place = here <;> simp only [hplace, if_true, if_false]
        · simp only [renumber, List.filterMap_cons, if_neg horigin, if_neg htarget,
            lookup_cons_eq, ih, if_neg (Ne.symm horigin)]
          by_cases hplace : place = target
          · simp only [hplace, if_true, if_neg (Ne.symm htarget)]
          · by_cases hself : place = origin
            · simp only [hself, if_true, if_neg hne, if_neg (Ne.symm horigin)]
            · simp only [hplace, hself, if_false]

/-- Its number goes with it. -/
theorem number?_rename (disk : Disk) {origin target : Place} (entry : Entry)
    (hne : origin ≠ target) (place : Place) : (disk.rename origin target entry).number? place
      = if place = target then disk.number? origin else if place = origin then none
        else disk.number? place :=
  lookup_renumber hne place disk.numbers

/-- Moving a name leaves the working directory. -/
@[simp] theorem cwd_rename (disk : Disk) (origin target : Place) (entry : Entry) :
    (disk.rename origin target entry).cwd = disk.cwd := rfl

/-- What is no directory may be moved in a directory over what is none. -/
structure Movable (disk : Disk) (origin target : Place) (entry : Entry) : Prop where
  wellFormed : disk.WellFormed
  there : disk.get? origin = some entry
  entry_ne : entry ≠ .dir
  ne : origin ≠ target
  target_ne : disk.get? target ≠ some .dir
  inDir : ∃ parent name, target = parent ++ [name] ∧ disk.get? parent = some .dir

namespace Movable

variable {disk : Disk} {origin target : Place} {entry : Entry}

/-- After a move the entry is at the target and no longer at the origin. -/
theorem get?_rename (h : Movable disk origin target entry) (place : Place) :
    (disk.rename origin target entry).get? place
      = if place = target then some entry else if place = origin then none
        else disk.get? place := by
  refine Disk.get?_rename h.wellFormed ?_ h.ne ?_ place
  · rw [h.there]
    simpa using h.entry_ne
  · obtain ⟨parent, name, rfl, -⟩ := h.inDir
    simp

/-- What has a number afterwards had it before, and shows what stood there. -/
theorem get?_of_number? (h : Movable disk origin target entry) {place : Place} {n : Nat}
    (hn : (disk.rename origin target entry).number? place = some n) :
    ∃ source, disk.number? source = some n ∧
      (disk.rename origin target entry).get? place = disk.get? source := by
  rw [number?_rename disk entry h.ne] at hn
  rw [h.get?_rename]
  by_cases htarget : place = target
  · rw [if_pos htarget] at hn ⊢
    exact ⟨origin, hn, h.there.symm⟩
  · rw [if_neg htarget] at hn ⊢
    by_cases horigin : place = origin
    · rw [if_pos horigin] at hn
      cases hn
    · rw [if_neg horigin] at hn ⊢
      exact ⟨place, hn, rfl⟩

/-- Everything still stands in a directory. -/
theorem wellFormed_rename (h : Movable disk origin target entry) :
    (disk.rename origin target entry).WellFormed := by
  have hget := h.get?_rename
  have hdirs : ∀ place, disk.get? place = some .dir → place ≠ target ∧ place ≠ origin := by
    intro place hdir
    constructor
    · rintro rfl
      exact h.target_ne hdir
    · rintro rfl
      rw [h.there] at hdir
      exact h.entry_ne (Option.some.inj hdir)
  refine h.wellFormed.of_dirs ?_ ?_ rfl ?_
  · intro place hdir
    obtain ⟨htarget, horigin⟩ := hdirs place hdir
    rw [hget, if_neg htarget, if_neg horigin, hdir]
  · intro place child hchild
    rw [hget] at hchild
    split at hchild
    · rename_i heq
      obtain ⟨parent, name, rfl, hparent⟩ := h.inDir
      obtain ⟨rfl, -⟩ := List.append_inj' heq rfl
      exact hparent
    · split at hchild
      · exact absurd rfl hchild
      · exact h.wellFormed.parent place child hchild
  · intro place n hn
    obtain ⟨source, hsource, -⟩ := h.get?_of_number? hn
    obtain ⟨there, hdir, hthere⟩ := h.wellFormed.numbered source n hsource
    refine ⟨there, hdir, fun other hother => ?_⟩
    obtain ⟨source', hsource', heq⟩ := h.get?_of_number? hother
    rw [heq, hthere source' hsource']

/-- Moving a file. -/
theorem frame_rename {bytes : ByteArray} (h : Movable disk origin target (.file bytes)) :
    Frame [target, origin] disk (disk.rename origin target (.file bytes)) := by
  have hget := h.get?_rename
  refine ⟨rfl, h.wellFormed_rename, ?_, ?_⟩
  · intro place link hlink
    rw [hget] at hlink
    split at hlink
    · cases hlink
    · split at hlink
      · cases hlink
      · exact hlink
  · intro place hother
    rw [List.mem_cons, List.mem_singleton, not_or] at hother
    rw [fileAt, fileAt, hget, if_neg hother.1, if_neg hother.2]

end Movable

/-! ## Directories -/

/-- A free place in a directory. -/
structure Free (disk : Disk) (place : Place) : Prop where
  free : disk.get? place = none
  inDir : ∃ parent name, place = parent ++ [name] ∧ disk.get? parent = some .dir

/-- Steps lead to a free place only in a directory. -/
theorem free_of_walkWith {disk : Disk} (hwf : disk.WellFormed) {aim : Aim}
    {follow : Place → List Step → Except DiskError Found}
    (hfollow : ∀ start way place, disk.get? start = some .dir →
      follow start way = .ok (.free place) → disk.Free place)
    {start : Place} (hstart : disk.get? start = some .dir) {way : List Step} {place : Place}
    (h : disk.walkWith aim follow start way = .ok (.free place)) : disk.Free place := by
  induction way generalizing start with
  | nil =>
      rw [walkWith] at h
      cases h
  | cons step rest ih =>
      cases step with
      | root => exact ih rfl h
      | here => exact ih hstart h
      | slash => exact ih hstart h
      | up => exact ih (hwf.dropLast hstart) h
      | named name =>
          rw [walkWith] at h
          split at h
          · cases h
          · split at h
            · cases h
            · cases hthere : disk.get? (start ++ [name]) with
              | none =>
                  simp only [hthere] at h
                  split at h
                  · cases h
                    exact ⟨hthere, start, name, rfl, hstart⟩
                  · cases h
              | some entry =>
                  cases entry with
                  | dir =>
                      simp only [hthere] at h
                      exact ih hthere h
                  | file bytes =>
                      simp only [hthere] at h
                      split at h <;> cases h
                  | link target =>
                      simp only [hthere] at h
                      split at h
                      · cases h
                      · exact hfollow _ _ _ hstart h

/-- A path leads to a free place only in a directory. -/
theorem free_of_find {disk : Disk} (hwf : disk.WellFormed) {aim : Aim} {path : String}
    {place : Place} (h : disk.find aim path = .ok (.free place)) : disk.Free place := by
  have hwalk : ∀ links start way place, disk.get? start = some .dir →
      disk.walk aim links start way = .ok (.free place) → disk.Free place := by
    intro links
    induction links with
    | zero =>
        intro start way place hstart hfree
        refine free_of_walkWith hwf ?_ hstart hfree
        intro start way place _ herror
        cases herror
    | succ links ih =>
        intro start way place hstart hfree
        exact free_of_walkWith hwf ih hstart hfree
  unfold find at h
  split at h
  · cases h
  · split at h
    · cases h
    · split at h
      · cases h
      · exact hwalk _ _ _ _ hwf.cwd h

/-- The second disk has more directories, at places that were free, and differs in nothing
else. -/
structure Grows (disk disk' : Disk) : Prop where
  cwd : disk'.cwd = disk.cwd
  number? : ∀ place, disk'.number? place = disk.number? place
  wellFormed : disk'.WellFormed
  get? : ∀ place, disk'.get? place = disk.get? place ∨
    (disk.get? place = none ∧ disk'.get? place = some .dir)

/-- A disk grows into itself. -/
theorem Grows.refl {disk : Disk} (h : disk.WellFormed) : Grows disk disk :=
  ⟨rfl, fun _ => rfl, h, fun _ => .inl rfl⟩

/-- Growing twice is growing. -/
theorem Grows.trans {disk disk' disk'' : Disk} (h : Grows disk disk') (h' : Grows disk' disk'') :
    Grows disk disk'' where
  cwd := h'.cwd.trans h.cwd
  number? := fun place => (h'.number? place).trans (h.number? place)
  wellFormed := h'.wellFormed
  get? := by
    intro place
    rcases h'.get? place with hsame | ⟨hfree, hdir⟩
    · rw [hsame]
      exact h.get? place
    · rcases h.get? place with hsame | ⟨-, hthere⟩
      · exact .inr ⟨hsame ▸ hfree, hdir⟩
      · rw [hthere] at hfree
        cases hfree

/-- What was there stays. -/
theorem Grows.get?_of_some {disk disk' : Disk} (h : Grows disk disk') {place : Place}
    {entry : Entry} (hthere : disk.get? place = some entry) : disk'.get? place = some entry := by
  rcases h.get? place with hsame | ⟨hfree, -⟩
  · rw [hsame, hthere]
  · rw [hfree] at hthere
    cases hthere

/-- New directories are neither files nor links. -/
theorem Grows.frame {disk disk' : Disk} (h : Grows disk disk') : Frame [] disk disk' where
  cwd := h.cwd
  wellFormed := h.wellFormed
  links := by
    intro place target hlink
    rcases h.get? place with hsame | ⟨-, hdir⟩
    · rwa [hsame] at hlink
    · rw [hdir] at hlink
      cases hlink
  files := by
    intro place _
    rcases h.get? place with hsame | ⟨hfree, hdir⟩
    · rw [fileAt, fileAt, hsame]
    · rw [fileAt, fileAt, hfree, hdir]

/-- Making a directory changes nothing that was there. -/
theorem grows_makeDir {disk disk' : Disk} (hwf : disk.WellFormed) {path : String}
    (h : disk.makeDir path = .ok disk') : Grows disk disk' := by
  rw [makeDir] at h
  cases hfind : disk.find .change path with
  | error cause => simp [hfind] at h
  | ok found =>
      cases found with
      | taken place entry => simp [hfind] at h
      | free place =>
          obtain ⟨hfree, parent, name, rfl, hparent⟩ := free_of_find hwf hfind
          simp only [hfind, Except.ok.injEq] at h
          subst h
          refine ⟨rfl, fun _ => rfl, hwf.put_dir hparent hfree, ?_⟩
          intro place
          rw [get?_put disk (by simp)]
          by_cases hplace : place = parent ++ [name]
          · rw [if_pos hplace, hplace]
            exact .inr ⟨hfree, rfl⟩
          · rw [if_neg hplace]
            exact .inl rfl

/-- Making a directory where none is changes nothing that was there. -/
theorem grows_ensureDir {disk disk' : Disk} (hwf : disk.WellFormed) {path : String}
    (h : disk.ensureDir path = .ok disk') : Grows disk disk' := by
  rw [ensureDir] at h
  cases hmake : disk.makeDir path with
  | ok made =>
      simp only [hmake, Except.ok.injEq] at h
      subst h
      exact grows_makeDir hwf hmake
  | error cause =>
      simp only [hmake] at h
      split at h
      · cases h
        exact .refl hwf
      · cases h

/-- Making a directory and those above it makes directories only, whether it succeeds or not. -/
theorem grows_makeDirs {disk : Disk} (hwf : disk.WellFormed) (fuel : Nat) (path : String) :
    Grows disk (disk.makeDirs fuel path).1 := by
  induction fuel generalizing path with
  | zero => exact .refl hwf
  | succ fuel ih =>
      rw [makeDirs]
      split
      · exact .refl hwf
      · cases hmake : disk.makeDir path with
        | ok made => exact grows_makeDir hwf hmake
        | error cause =>
            have hstay : Grows disk (if disk.isDir path then (disk, Except.ok ())
                else (disk, .error cause)).1 := by
              split <;> exact .refl hwf
            cases cause with
            | notFound =>
                simp only
                cases Path.parent? path with
                | none => exact .refl hwf
                | some parent =>
                    have habove := ih parent
                    simp only
                    rcases hdirs : disk.makeDirs fuel parent with ⟨made, e | _⟩
                    · rw [hdirs] at habove
                      exact habove
                    · rw [hdirs] at habove
                      simp only
                      cases hensure : made.ensureDir path with
                      | ok last =>
                          exact habove.trans (grows_ensureDir habove.wellFormed hensure)
                      | error cause => exact habove
            | alreadyThere | notDirectory | isDirectory | busy | nameTooLong | tooManyLinks
            | zeroChar => exact hstay

/-- Making the directory that a file goes into makes directories only. -/
theorem grows_makeParent {disk : Disk} (hwf : disk.WellFormed) (path : String) :
    Grows disk (disk.makeParent path).1 := by
  rw [makeParent]
  cases Path.parent? path with
  | none => exact .refl hwf
  | some parent =>
      simp only
      split
      · exact .refl hwf
      · have hdirs := grows_makeDirs hwf (parent.length + 1) parent
        rcases hmade : disk.makeDirs (parent.length + 1) parent with ⟨made, e | _⟩
        · rw [hmade] at hdirs
          exact hdirs
        · rw [hmade] at hdirs
          exact hdirs

end CodeIndex.Disk
