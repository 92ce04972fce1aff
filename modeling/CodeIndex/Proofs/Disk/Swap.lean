import CodeIndex.Proofs.Disk.LastName
import CodeIndex.Proofs.Disk.Walk

/-!
# Writing beside and moving into place

What a successful save does to a tree, with links wherever they may be.  The temporary file stands
in the directory that the file itself goes to.  If it is a link, the bytes go to where it leads,
and the link is moved; otherwise the file is.  All names of the file that the bytes go to show
them.  As long as both paths lead to different files, and neither gets in the way of the other,
nothing else changes.

* `find_eq_ok_iff`, `exists_of_write`, `exists_of_move` : the operations by the rules of walks.
* `Beside` : the two names in one directory, and where the bytes go.
* `Swap` : what writing the temporary file and moving it does; `exists_swap` : that it does.
-/

namespace CodeIndex.Disk

/-! ## Operations on paths -/

/-- A path that may be looked up. -/
structure Valid (path : String) : Prop where
  plain : path.toList.any (·.toNat == 0) = false
  nonempty : path.isEmpty = false
  short : path.utf8ByteSize ≤ pathLimit

section

variable {disk disk' : Disk} {path : String} {bytes : ByteArray}

/-- A path is found exactly if it is valid and a walk with few enough links ends. -/
theorem find_eq_ok_iff {aim : Aim} {found : Found} : disk.find aim path = .ok found ↔
    Valid path ∧ Walks disk aim linkLimit disk.cwd (steps path) found := by
  rw [← walk_eq_ok_iff]
  unfold find
  constructor
  · intro h
    split at h
    · cases h
    · rename_i hplain
      split at h
      · cases h
      · rename_i hnonempty
        split at h
        · cases h
        · rename_i hshort
          exact ⟨⟨Bool.eq_false_iff.mpr hplain, Bool.eq_false_iff.mpr hnonempty,
            Nat.not_lt.mp hshort⟩, h⟩
  · rintro ⟨⟨hplain, hnonempty, hshort⟩, h⟩
    simp only [hplain, hnonempty, Nat.not_lt.mpr hshort, Bool.false_eq_true, if_false]
    exact h

/-- A path is read exactly if such a walk ends at a file. -/
theorem read_eq_ok_iff : disk.read path = .ok bytes ↔
    Valid path ∧ ∃ place, Walks disk .use linkLimit disk.cwd (steps path)
      (.taken place (.file bytes)) := by
  have hfind : disk.read path = .ok bytes ↔
      ∃ place, disk.find .use path = .ok (.taken place (.file bytes)) := by
    unfold read lookup
    match disk.find .use path with
    | .error cause => simp
    | .ok (.free place) => simp
    | .ok (.taken place (.file there)) => simp
    | .ok (.taken place (.link target)) => simp
    | .ok (.taken place .dir) => simp
  simp only [hfind, find_eq_ok_iff, exists_and_left]

/-- A file is written where no directory is found, in a directory. -/
theorem exists_of_write (hwf : disk.WellFormed) (h : disk.write path bytes = .ok disk') :
    ∃ found, Walks disk .write linkLimit disk.cwd (steps path) found ∧
      found.there? ≠ some .dir ∧ disk' = disk.fill found.place bytes ∧ disk'.WellFormed := by
  rw [write] at h
  cases hfind : disk.find .write path with
  | error cause =>
      rw [hfind] at h
      cases h
  | ok found =>
      rw [hfind] at h
      obtain ⟨-, hwalks⟩ := find_eq_ok_iff.mp hfind
      have hdir : found.there? ≠ some .dir := by
        cases found with
        | free place => simp [Found.there?]
        | taken place entry =>
            intro heq
            cases heq
            cases h
      have hdisk' : disk' = disk.fill found.place bytes := by
        cases found with
        | free place =>
            cases h
            rfl
        | taken place entry =>
            cases entry with
            | file old =>
                cases h
                rfl
            | link target => cases h
            | dir => cases h
      refine ⟨found, hwalks, hdir, hdisk', ?_⟩
      have hend := hwalks.deadEnd (by simp) hdir
      obtain ⟨hthere, -, here, name, hplace, -⟩ := hwalks.endsAt hdir
      rw [hdisk', hplace]
      rw [hplace] at hthere hend
      refine hwf.fill ?_ hend bytes
      cases found with
      | free place =>
          obtain ⟨-, parent, last, heq, hparent⟩ := free_of_find hwf hfind
          obtain ⟨rfl, -⟩ := List.append_inj' (hplace.symm.trans heq) rfl
          exact hparent
      | taken place entry => exact hwf.parent here name (by rw [hthere]; simp [Found.there?])

/-- What is moved replaces what is found at a path that ends in a name, if it is no directory;
unless that is the same file already. -/
theorem exists_of_move {source target : String} (h : disk.move source target = .ok disk') :
    ending target = .name ∧ Valid target ∧ ∃ origin entry found,
      Walks disk .change linkLimit disk.cwd (steps source) (.taken origin entry) ∧
      Walks disk .change linkLimit disk.cwd (steps target) found ∧ found.there? ≠ some .dir ∧
      (disk.SameFile origin found.place ∨ disk' = disk.rename origin found.place entry) := by
  rw [move] at h
  obtain ⟨origin, entry, hsource⟩ :
      ∃ origin entry, disk.find .change source = .ok (.taken origin entry) := by
    cases hsource : disk.find .change source with
    | error cause =>
        rw [hsource] at h
        cases h
    | ok found =>
        cases found with
        | free place =>
            rw [hsource] at h
            cases h
        | taken origin entry => exact ⟨origin, entry, rfl⟩
  rw [hsource] at h
  have hname : ending target = .name := by
    cases hending : ending target with
    | name => rfl
    | slash =>
        rw [findTarget, hending] at h
        cases hfind : disk.find .change (withoutSlash target) <;>
          simp [hfind, Except.bind] at h
    | dots =>
        rw [findTarget, hending] at h
        cases hfind : disk.find .change target <;> simp [hfind, Except.bind] at h
  rw [findTarget, hname] at h
  cases htarget : disk.find .change target with
  | error cause =>
      rw [htarget] at h
      cases h
  | ok found =>
      rw [htarget] at h
      obtain ⟨hvalid, hwalks⟩ := find_eq_ok_iff.mp htarget
      refine ⟨hname, hvalid, origin, entry, found, (find_eq_ok_iff.mp hsource).2, hwalks, ?_⟩
      cases found with
      | free place =>
          cases h
          exact ⟨by simp [Found.there?], .inr rfl⟩
      | taken place there =>
          cases there with
          | dir => cases h
          | file | link =>
              refine ⟨by simp [Found.there?], ?_⟩
              simp only at h
              split at h
              · rename_i heq
                exact .inl heq
              · cases h
                exact .inr rfl

end

/-! ## Two names in one directory -/

section

variable {disk : Disk} {path other : String} {others : List String}

/-- The first of such paths is one of a file. -/
theorem FilesApart.first (h : disk.FilesApart (path :: other :: others)) : disk.IsFile path :=
  h.files path List.mem_cons_self

/-- The second of such paths is one of a file. -/
theorem FilesApart.second (h : disk.FilesApart (path :: other :: others)) : disk.IsFile other :=
  h.files other (List.mem_cons_of_mem _ List.mem_cons_self)

/-- The first two of such paths are apart. -/
theorem FilesApart.pair (h : disk.FilesApart (path :: other :: others)) :
    disk.Apart path other :=
  (List.pairwise_cons.mp h.apart).1 other List.mem_cons_self

/-- The first of such paths is apart from every later one. -/
theorem FilesApart.first_other (h : disk.FilesApart (path :: other :: others)) {third : String}
    (hthird : third ∈ others) : disk.Apart path third :=
  (List.pairwise_cons.mp h.apart).1 third (List.mem_cons_of_mem _ hthird)

/-- The second of such paths is apart from every later one. -/
theorem FilesApart.second_other (h : disk.FilesApart (path :: other :: others)) {third : String}
    (hthird : third ∈ others) : disk.Apart other third :=
  (List.pairwise_cons.mp (List.pairwise_cons.mp h.apart).2).1 third hthird

end

/-- The temporary file beside a path can be written.  Both are names in one directory, `home`, and
`found` tells where the bytes go. -/
structure Beside (disk : Disk) (path : String) where
  wellFormed : disk.WellFormed
  front : List Step
  name : String
  temporary : String
  home : Place
  left : Nat
  found : Found
  steps_eq : steps path = front ++ [.named name]
  temporary_steps : steps (temporaryPath path) = front ++ [.named temporary]
  temporary_ne : temporary ≠ name
  comes : Comes disk linkLimit disk.cwd front left home
  writes : Walks disk .write left home [.named temporary] found
  noDir : found.there? ≠ some .dir

namespace Beside

variable {disk : Disk} {path : String} {others : List String}

/-- The place of the file. -/
def target (b : Beside disk path) : Place := b.home ++ [b.name]

/-- The place of the temporary file. -/
def origin (b : Beside disk path) : Place := b.home ++ [b.temporary]

/-- The temporary name is not the last name of the path. -/
theorem origin_ne_target (b : Beside disk path) : b.origin ≠ b.target := by
  intro hsame
  exact b.temporary_ne (List.cons.inj (List.append_inj' hsame rfl).2).1

/-- The path goes to its directory, with its last name left. -/
theorem goes (b : Beside disk path) :
    disk.Goes (disk.startOf path) (b.home, [.named b.name]) := by
  rw [startOf, b.steps_eq]
  exact b.comes.goes.append [.named b.name]

/-- The temporary path goes to the same directory, with its own name left. -/
theorem goes_temporary (b : Beside disk path) :
    disk.Goes (disk.startOf (temporaryPath path)) (b.home, [.named b.temporary]) := by
  rw [startOf, b.temporary_steps]
  exact b.comes.goes.append [.named b.temporary]

/-- The path ends at the target. -/
theorem target_endsAt (b : Beside disk path) : disk.EndsAt path b.target :=
  ⟨b.home, b.name, rfl, b.goes⟩

/-- The temporary path ends at the origin. -/
theorem origin_endsAt (b : Beside disk path) : disk.EndsAt (temporaryPath path) b.origin :=
  ⟨b.home, b.temporary, rfl, b.goes_temporary⟩

/-- The bytes go where the temporary file leads, and no walk goes on behind that. -/
theorem leads_found (b : Beside disk path) :
    disk.Goes (b.home, [.named b.temporary]) (b.found.place, []) :=
  b.writes.leads (by simp) b.noDir

/-- The temporary path leads to the file that is written. -/
theorem leads (b : Beside disk path) : disk.Leads (temporaryPath path) b.found.place :=
  b.goes_temporary.trans b.leads_found

/-- No walk goes on from the file that is written. -/
theorem deadEnd_found (b : Beside disk path) : disk.DeadEnd b.found.place :=
  b.writes.deadEnd (by simp) b.noDir

/-- All names of the file that the bytes go to are dead ends. -/
theorem deadEnds (b : Beside disk path) :
    ∀ place ∈ disk.names b.found.place, disk.DeadEnd place :=
  b.writes.deadEnds b.wellFormed (by simp) b.noDir

/-- A directory is none of them. -/
theorem not_mem_of_dir (b : Beside disk path) {place : Place} (h : disk.get? place = some .dir) :
    place ∉ disk.names b.found.place :=
  fun hmem => (b.deadEnds place hmem).ne_dir h

/-- Nor is it the place that the bytes go to. -/
theorem ne_found_of_dir (b : Beside disk path) {place : Place} (h : disk.get? place = some .dir) :
    place ≠ b.found.place := by
  rintro rfl
  exact b.not_mem_of_dir h (mem_names.mpr (sameFile_refl disk _))

/-- That place is looked at with the last name behind the temporary one. -/
theorem looks_found (b : Beside disk path) :
    disk.Looks (b.home, [.named b.temporary]) b.found.place := by
  obtain ⟨-, -, here, last, hplace, hgoes⟩ := b.writes.endsAt b.noDir
  exact ⟨here, last, [], hplace, hgoes⟩

/-- What stands at a place after the bytes were written. -/
theorem get?_fill (b : Beside disk path) (bytes : ByteArray) (place : Place) :
    (disk.fill b.found.place bytes).get? place
      = if place ∈ disk.names b.found.place then some (.file bytes) else disk.get? place :=
  b.writes.get?_fill b.wellFormed b.noDir bytes place

/-- Wherever the temporary path comes to with steps left, there is a directory. -/
theorem dir_of_goes (b : Beside disk path) {spot : Spot}
    (h : disk.Goes (disk.startOf (temporaryPath path)) spot) (hrest : spot.2 ≠ []) :
    disk.get? spot.1 = some .dir := by
  rw [startOf, b.temporary_steps] at h
  exact (b.comes.walks b.writes).dir_of_goes b.wellFormed (by simp) b.wellFormed.cwd h hrest

/-- The temporary path comes to its last name at its end only: the bytes go to no directory, and
so it would not get behind them. -/
theorem last_of_origin (b : Beside disk path) {rest : List Step}
    (h : disk.Goes (disk.startOf (temporaryPath path)) (b.home, .named b.temporary :: rest)) :
    rest = [] := by
  by_contra hrest
  have hdir := b.dir_of_goes (h.trans (b.leads_found.append rest)) hrest
  exact b.ne_found_of_dir hdir rfl

/-- The way to the directory does not look at the temporary file. -/
theorem not_looks_origin (b : Beside disk path) : ¬disk.Looks (disk.cwd, b.front) b.origin := by
  rintro ⟨start, name, rest, hplace, hgoes⟩
  obtain ⟨rfl, hname⟩ := List.append_inj' hplace rfl
  cases hname
  have hway : disk.Goes (disk.startOf (temporaryPath path))
      (b.home, .named b.temporary :: (rest ++ [.named b.temporary])) := by
    rw [startOf, b.temporary_steps]
    exact hgoes.append [.named b.temporary]
  have hnil := b.last_of_origin hway
  simp at hnil

/-- The temporary path does not look at the file's own name. -/
def Aside (b : Beside disk path) : Prop :=
  ¬disk.Looks (disk.startOf (temporaryPath path)) b.target

/-- So it is if both paths lead to different files. -/
theorem aside_of_filesApart (b : Beside disk path)
    (h : disk.FilesApart (path :: temporaryPath path :: others)) : b.Aside :=
  h.pair.not_looks h.first b.target_endsAt

variable {b : Beside disk path}

/-- It is not looked at on the way to the directory. -/
theorem Aside.front (h : b.Aside) : ¬disk.Looks (disk.cwd, b.front) b.target := by
  intro hlooks
  have hmore := hlooks.append [.named b.temporary]
  rw [← b.temporary_steps] at hmore
  exact h hmore

/-- It is not looked at behind the temporary file. -/
theorem Aside.behind (h : b.Aside) : ¬disk.Looks (b.home, [.named b.temporary]) b.target :=
  fun hlooks => h (hlooks.of_goes b.goes_temporary)

/-- What is written aside is not at the target. -/
theorem Aside.found_ne_target (h : b.Aside) : b.found.place ≠ b.target := by
  intro hsame
  exact h.behind (hsame ▸ b.looks_found)

variable (b)

/-- The bytes go to the temporary file itself, or to where it leads if it is a link. -/
theorem cases_found (b : Beside disk path) :
    (b.found.place = b.origin ∧ disk.linkAt b.origin = none) ∨
      ∃ link fewer, b.left = fewer + 1 ∧ disk.get? b.origin = some (.link link) ∧
        b.found.place ≠ b.origin ∧ Walks disk .write fewer b.home (steps link) b.found := by
  have hfound := b.deadEnd_found.linkAt_eq
  have hdir := b.noDir
  have hwrites := b.writes
  generalize hleft : b.left = left at hwrites
  generalize hwhere : b.found = found at hwrites hdir hfound
  cases hwrites with
  | next hstep _ => cases hstep
  | dir _ _ _ h =>
      cases h
      exact absurd rfl hdir
  | @link fewer _ _ link _ _ _ _ hlink _ h =>
      refine .inr ⟨link, fewer, rfl, hlink, ?_, ?_⟩
      · intro heq
        rw [heq, linkAt_eq_none_iff] at hfound
        exact hfound link hlink
      · rwa [List.append_nil] at h
  | last _ _ _ _ =>
      rw [Found.place_ofEntry] at hfound ⊢
      exact .inl ⟨rfl, hfound⟩

/-- Two names of one file lead to one file, so if the two paths lead to different ones, these are
not two names of one. -/
theorem not_sameFile (b : Beside disk path) (h : disk.Differ (temporaryPath path) path) :
    ¬disk.SameFile b.origin b.target := by
  intro hsame
  have hlinks : disk.linkAt b.target = disk.linkAt b.origin := by
    rw [linkAt, linkAt, b.wellFormed.get?_eq hsame]
  rcases b.cases_found with ⟨hfound, hnone⟩ | ⟨link, fewer, -, hlink, -, -⟩
  · have hleads := b.goes.tail (advance?_of_no_link (hlinks.trans hnone) [])
    exact h _ _ b.leads hleads (hfound ▸ hsame)
  · have hlink := linkAt_eq_some_iff.mpr hlink
    have hrest := b.leads_found.rest (.single (advance?_of_last_link hlink))
    have hleads := (b.goes.tail (advance?_of_last_link (hlinks.trans hlink))).trans hrest
    exact h _ _ b.leads hleads (sameFile_refl disk _)

end Beside

/-! ## Swaps -/

/-- The temporary file beside a path was written and moved into place. -/
structure Swap (before after : Disk) (path : String) (bytes : ByteArray)
    extends Beside before path where
  valid : Valid path
  size : name.utf8ByteSize ≤ nameLimit
  target_noDir : before.get? toBeside.target ≠ some .dir
  cwd : after.cwd = before.cwd
  after_wellFormed : after.WellFormed
  get? : ∀ place, after.get? place =
    if place = toBeside.target then (before.fill found.place bytes).get? toBeside.origin
    else if place = toBeside.origin then none
    else (before.fill found.place bytes).get? place
  number? : ∀ place, after.number? place =
    if place = toBeside.target then before.number? toBeside.origin
    else if place = toBeside.origin then none
    else before.number? place

section

variable {before mid after : Disk} {path : String} {bytes : ByteArray} {others : List String}

/-- The last name of a path whose directory is to be changed is looked up in the directory that
its way leads to. -/
theorem found_of_change {disk : Disk} {links left : Nat} {start home : Place} {front : List Step}
    {name : String} {found : Found} (hcomes : Comes disk links start front left home)
    (h : Walks disk .change links start (front ++ [.named name]) found) :
    found = .ofEntry (home ++ [name]) (disk.get? (home ++ [name])) ∧
      name.utf8ByteSize ≤ nameLimit := by
  obtain ⟨left', home', hcomes', hlast⟩ := h.cut
  obtain rfl := hcomes.goes.end_unique hcomes'.goes
  refine ⟨hlast.change_last, ?_⟩
  cases hlast with
  | next hstep _ => cases hstep
  | dir hsize _ _ _ => exact hsize
  | link hsize _ _ _ _ => exact hsize
  | last hsize _ _ _ => exact hsize

/-- The temporary file stands in the directory of the path. -/
theorem exists_beside (hwf : before.WellFormed) (hending : ending path = .name) {found : Found}
    (hwalks : Walks before .write linkLimit before.cwd (steps (temporaryPath path)) found)
    (hdir : found.there? ≠ some .dir) : ∃ b : Beside before path, b.found = found := by
  obtain ⟨front, name, temporary, hsteps, htemporarySteps, hne⟩ := steps_of_ending hending
  rw [htemporarySteps] at hwalks
  obtain ⟨left, home, hcomes, hwrites⟩ := hwalks.cut
  exact ⟨⟨hwf, front, name, temporary, home, left, found, hsteps, htemporarySteps, hne, hcomes,
    hwrites, hdir⟩, rfl⟩

/-- The bytes are not written on the way to the directory, so the way there is the same. -/
theorem Beside.comes_fill (b : Beside before path) (bytes : ByteArray) :
    Comes (before.fill b.found.place bytes) linkLimit before.cwd b.front b.left b.home := by
  refine b.comes.keep b.deadEnds ?_
  intro place entry _ hfound hsome
  rw [b.get?_fill, if_neg hfound, hsome]

/-- What stands at the place of the temporary file after it was written is no directory. -/
theorem Beside.origin_not_dir (b : Beside before path) (bytes : ByteArray) :
    (before.fill b.found.place bytes).get? b.origin ≠ some .dir := by
  rw [b.get?_fill]
  split
  · simp
  · rename_i hmem
    rcases b.cases_found with ⟨hplace, -⟩ | ⟨link, fewer, -, hlink, -, -⟩
    · exact absurd (mem_names.mpr (hplace ▸ sameFile_refl before _)) hmem
    · rw [hlink]
      simp

/-- A directory stays one when the bytes are written. -/
theorem Beside.get?_fill_of_dir (b : Beside before path) {place : Place}
    (h : before.get? place = some .dir) :
    (before.fill b.found.place bytes).get? place = some .dir := by
  rw [b.get?_fill, if_neg (b.not_mem_of_dir h), h]

/-- What stands at the temporary name then can be moved over what is no directory. -/
theorem Beside.movable (b : Beside before path) {entry : Entry}
    (hwf : (before.fill b.found.place bytes).WellFormed)
    (hentry : (before.fill b.found.place bytes).get? b.origin = some entry)
    (htarget : (before.fill b.found.place bytes).get? b.target ≠ some .dir) :
    Movable (before.fill b.found.place bytes) b.origin b.target entry where
  wellFormed := hwf
  there := hentry
  entry_ne := by
    rintro rfl
    exact b.origin_not_dir bytes hentry
  ne := b.origin_ne_target
  target_ne := htarget
  inDir := by
    refine ⟨b.home, b.name, rfl, hwf.parent b.home b.temporary ?_⟩
    rw [show b.home ++ [b.temporary] = b.origin from rfl, hentry]
    simp

/-- The two names are not names of one file then, if the two paths lead to different files. -/
theorem Beside.not_sameFile_fill (b : Beside before path)
    (hdiffer : before.Differ (temporaryPath path) path) :
    ¬(before.fill b.found.place bytes).SameFile b.origin b.target := by
  rw [sameFile_congr (number?_fill ..) (number?_fill ..)]
  exact b.not_sameFile hdiffer

/-- Writing the temporary file and moving it into place is such a swap, if the two paths lead to
different files. -/
theorem exists_swap (hwf : before.WellFormed) (hdiffer : before.Differ (temporaryPath path) path)
    (hwrite : before.write (temporaryPath path) bytes = .ok mid)
    (hmove : mid.move (temporaryPath path) path = .ok after) :
    Nonempty (Swap before after path bytes) := by
  obtain ⟨found, hwalks, hdir, rfl, hmid⟩ := exists_of_write hwf hwrite
  obtain ⟨hending, hvalid, origin, entry, target, hsource, htarget, htargetDir, hmoved⟩ :=
    exists_of_move hmove
  obtain ⟨b, rfl⟩ := exists_beside hwf hending hwalks hdir
  have hcomes := b.comes_fill bytes
  rw [b.temporary_steps, cwd_fill] at hsource
  rw [b.steps_eq, cwd_fill] at htarget
  obtain ⟨hsourceEq, -⟩ := found_of_change hcomes hsource
  obtain ⟨rfl, hsize⟩ := found_of_change hcomes htarget
  obtain ⟨rfl, hentry⟩ : origin = b.origin ∧
      (before.fill b.found.place bytes).get? b.origin = some entry := Found.eq_of_taken hsourceEq
  rw [Found.place_ofEntry] at hmoved
  rw [Found.there?_ofEntry] at htargetDir
  obtain rfl := hmoved.resolve_left (b.not_sameFile_fill hdiffer)
  have hmovable := b.movable hmid hentry htargetDir
  refine ⟨⟨b, hvalid, hsize, fun htarget => htargetDir (b.get?_fill_of_dir htarget), by simp,
    hmovable.wellFormed_rename, ?_, ?_⟩⟩
  · rw [hentry]
    exact hmovable.get?_rename
  · intro place
    rw [← number?_fill before b.found.place bytes, ← number?_fill before b.found.place bytes]
    exact number?_rename _ entry b.origin_ne_target place

end

end CodeIndex.Disk
