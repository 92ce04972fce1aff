import CodeIndex.Proofs.Disk.Frame

/-!
# What a save leaves behind

A path of names, with no link on its way, leads to one place, whatever the tree holds there.  On
such a path a save does what it is meant to do, unless the place and that of the temporary file are
names of one file: if it succeeds, the file at its place holds the new bytes, and if it fails,
whichever step failed, that file is as it was; of all other files only the temporary one may
change.

* `find_of_there`, `find_of_absent` : where a path of names leads.
* `readText?_eq` : it is read from the file at its place.
* `save_spec` : what a save leaves behind.
-/

namespace CodeIndex.Disk

/-- The steps lead by names from a place to a place below it. -/
inductive Below : Place → List Step → Place → Prop
  | name {start : Place} {name : String} (hsize : name.utf8ByteSize ≤ nameLimit) :
      Below start [.named name] (start ++ [name])
  | here {start : Place} {way : List Step} {place : Place} (h : Below start way place) :
      Below start (.here :: way) place
  | named {start : Place} {name : String} {way : List Step} {place : Place}
      (hsize : name.utf8ByteSize ≤ nameLimit) (h : Below (start ++ [name]) way place) :
      Below start (.named name :: way) place

/-- The place lies below the start. -/
theorem Below.isPrefix {start place : Place} {way : List Step} (h : Below start way place) :
    start <+: place := by
  induction h with
  | name => exact List.prefix_append _ _
  | here _ ih => exact ih
  | named _ _ ih => exact (List.prefix_append _ _).trans ih

/-- It is not the start itself. -/
theorem Below.length_lt {start place : Place} {way : List Step} (h : Below start way place) :
    start.length < place.length := by
  induction h with
  | name => simp
  | here _ ih => exact ih
  | named _ _ ih =>
      rw [List.length_append, List.length_singleton] at ih
      omega

/-- Its way ends in a name. -/
theorem Below.ends {start place : Place} {way : List Step} (h : Below start way place) :
    ∃ front name, way = front ++ [.named name] := by
  induction h with
  | @name start name _ => exact ⟨[], name, rfl⟩
  | here _ ih =>
      obtain ⟨front, name, rfl⟩ := ih
      exact ⟨.here :: front, name, rfl⟩
  | @named start first _ _ _ _ ih =>
      obtain ⟨front, name, rfl⟩ := ih
      exact ⟨.named first :: front, name, rfl⟩

/-- No link stands on the way to a place, nor at it. -/
def NoLink (disk : Disk) (place : Place) : Prop :=
  ∀ front, front <+: place → ∀ target, disk.get? front ≠ some (.link target)

/-- None stands on the way to the working directory. -/
theorem WellFormed.noLink_cwd {disk : Disk} (h : disk.WellFormed) : disk.NoLink disk.cwd := by
  intro front hfront link hlink
  by_cases hself : front = disk.cwd
  · rw [hself, h.cwd] at hlink
    cases hlink
  · rw [h.of_prefix hfront hself (by rw [h.cwd]; simp)] at hlink
    cases hlink

/-- There is none among entries without links. -/
theorem noLink_of_entries {disk : Disk} (h : ∀ e ∈ disk.entries, ∀ target, e.2 ≠ .link target)
    (place : Place) : disk.NoLink place := by
  intro front _ target hthere
  by_cases hroot : front = []
  · rw [hroot] at hthere
    cases hthere
  · rw [get?, if_neg hroot] at hthere
    exact h _ (mem_of_findEntry hthere) target rfl

/-- No link comes to stand there. -/
theorem Frame.noLink {touched : List Place} {disk disk' : Disk} (h : Frame touched disk disk')
    {place : Place} (hlink : disk.NoLink place) : disk'.NoLink place :=
  fun front hfront target hthere => hlink front hfront target (h.links front target hthere)

/-- What a path of names leads to, if there is something. -/
theorem walkWith_of_there {disk : Disk} (hwf : disk.WellFormed) {aim : Aim}
    {follow : Place → List Step → Except DiskError Found} {start place : Place}
    {way : List Step} (hbelow : Below start way place) (hlink : disk.NoLink place)
    {entry : Entry} (hthere : disk.get? place = some entry) :
    disk.walkWith aim follow start way = .ok (.taken place entry) := by
  induction hbelow with
  | @name start name hsize =>
      have hno := hlink _ (List.prefix_refl _)
      rw [walkWith]
      simp only [List.isEmpty_nil, Bool.not_true, Bool.and_false, Bool.false_and,
        Bool.false_eq_true, if_false, Nat.not_lt.mpr hsize, hthere]
      cases entry with
      | file bytes => rfl
      | dir => rfl
      | link target => exact absurd hthere (hno target)
  | here _ ih => exact ih hlink hthere
  | @named start name way place hsize hrest ih =>
      have hfront := hrest.isPrefix
      have hne : start ++ [name] ≠ place := by
        intro h
        have hlength := hrest.length_lt
        rw [h] at hlength
        omega
      have hdir := hwf.of_prefix hfront hne (by rw [hthere]; simp)
      obtain ⟨front, last, rfl⟩ := hrest.ends
      rw [walkWith]
      simp only [List.all_append, List.all_cons, List.all_nil, Bool.and_true, hdir,
        Nat.not_lt.mpr hsize, if_false, Bool.and_false, Bool.false_eq_true,
        show (Step.named last == Step.slash) = false from rfl]
      exact ih hlink hthere

/-- Where a path of names leads, if there is nothing. -/
theorem walkWith_of_absent {disk : Disk} {aim : Aim}
    {follow : Place → List Step → Except DiskError Found} {start place : Place}
    {way : List Step} (hbelow : Below start way place) (hlink : disk.NoLink place)
    (habsent : disk.get? place = none) :
    disk.walkWith aim follow start way = .ok (.free place) ∨
      ∃ cause, disk.walkWith aim follow start way = .error cause := by
  induction hbelow with
  | @name start name hsize =>
      refine .inl ?_
      rw [walkWith]
      simp only [List.isEmpty_nil, Bool.not_true, Bool.and_false, Bool.false_and,
        Bool.false_eq_true, if_false, Nat.not_lt.mpr hsize, habsent]
      rfl
  | here _ ih => exact ih hlink habsent
  | @named start name way place hsize hrest ih =>
      have hfront := hrest.isPrefix
      have hno := hlink _ hfront
      obtain ⟨front, last, rfl⟩ := hrest.ends
      rw [walkWith]
      simp only [List.all_append, List.all_cons, List.all_nil, Bool.and_true,
        Nat.not_lt.mpr hsize, if_false, Bool.and_false, Bool.false_eq_true,
        show (Step.named last == Step.slash) = false from rfl]
      cases hnext : disk.get? (start ++ [name]) with
      | none => exact .inr ⟨.notFound, by simp⟩
      | some entry =>
          cases entry with
          | file bytes => exact .inr ⟨.notDirectory, by simp⟩
          | dir => exact ih hlink habsent
          | link target => exact absurd hnext (hno target)

/-! ## Paths of names -/

/-- A path of names, from the root or from the working directory, and the place it leads to. -/
structure Site (cwd : Place) (path : String) (place : Place) : Prop where
  plain : path.toList.any (·.toNat == 0) = false
  nonempty : path.isEmpty = false
  short : path.utf8ByteSize ≤ pathLimit
  leads : Below cwd (steps path) place ∨ ∃ way, steps path = .root :: way ∧ Below [] way place

/-- Such a path ends in a name. -/
theorem Site.ending_eq {cwd place : Place} {path : String} (h : Site cwd path place) :
    ending path = .name := by
  have hends : ∃ front name, steps path = front ++ [.named name] := by
    rcases h.leads with hbelow | ⟨way, hway, hbelow⟩
    · exact hbelow.ends
    · obtain ⟨front, name, rfl⟩ := hbelow.ends
      exact ⟨.root :: front, name, hway⟩
  obtain ⟨front, name, hsteps⟩ := hends
  rw [ending, hsteps, List.reverse_append]
  rfl

/-- Its place has a name. -/
theorem Site.exists_name {cwd place : Place} {path : String} (h : Site cwd path place) :
    ∃ parent name, place = parent ++ [name] := by
  have hne : place ≠ [] := by
    rcases h.leads with hbelow | ⟨way, -, hbelow⟩
    · intro hnil
      have hlength := hbelow.length_lt
      simp [hnil] at hlength
    · intro hnil
      have hlength := hbelow.length_lt
      simp [hnil] at hlength
  exact ⟨place.dropLast, place.getLast hne, (List.dropLast_concat_getLast hne).symm⟩

section

variable {disk : Disk} {path : String} {place : Place}

/-- What a path of names leads to, if there is something. -/
theorem find_of_there (hwf : disk.WellFormed) (hsite : Site disk.cwd path place)
    (hlink : disk.NoLink place) {entry : Entry} (hthere : disk.get? place = some entry)
    (aim : Aim) : disk.find aim path = .ok (.taken place entry) := by
  rw [find, hsite.plain, hsite.nonempty]
  simp only [Bool.false_eq_true, if_false, Nat.not_lt.mpr hsite.short]
  rcases hsite.leads with hbelow | ⟨way, hway, hbelow⟩
  · exact walkWith_of_there hwf hbelow hlink hthere
  · rw [hway]
    show disk.walkWith aim _ [] way = _
    exact walkWith_of_there hwf hbelow hlink hthere

/-- Where a path of names leads, if there is nothing. -/
theorem find_of_absent (hsite : Site disk.cwd path place) (hlink : disk.NoLink place)
    (habsent : disk.get? place = none) (aim : Aim) : disk.find aim path = .ok (.free place) ∨
      ∃ cause, disk.find aim path = .error cause := by
  rw [find, hsite.plain, hsite.nonempty]
  simp only [Bool.false_eq_true, if_false, Nat.not_lt.mpr hsite.short]
  rcases hsite.leads with hbelow | ⟨way, hway, hbelow⟩
  · exact walkWith_of_absent hbelow hlink habsent
  · rw [hway]
    show disk.walkWith aim _ [] way = _ ∨ ∃ cause, disk.walkWith aim _ [] way = _
    exact walkWith_of_absent hbelow hlink habsent

/-- A path of names is read from the file at its place. -/
theorem readText?_eq (hwf : disk.WellFormed) (hsite : Site disk.cwd path place)
    (hlink : disk.NoLink place) :
    disk.readText? path = (disk.fileAt place).bind Text.strict? := by
  unfold readText? read lookup fileAt
  cases hthere : disk.get? place with
  | none =>
      rcases find_of_absent hsite hlink hthere .use with hfind | ⟨cause, hfind⟩
      · rw [hfind]
        rfl
      · rw [hfind]
        rfl
  | some entry =>
      rw [find_of_there hwf hsite hlink hthere .use]
      cases entry <;> rfl

/-- The second disk differs in the file at a place only, which may have come to be there, and no
file has another name. -/
structure Touches (place : Place) (disk disk' : Disk) : Prop where
  frame : Frame (disk.names place) disk disk'
  number? : ∀ other, disk'.number? other = disk.number? other

/-- A disk against itself. -/
theorem Touches.refl (hwf : disk.WellFormed) : Touches place disk disk :=
  ⟨.refl hwf, fun _ => rfl⟩

/-- New directories are no files. -/
theorem Grows.touches {disk' : Disk} (h : Grows disk disk') : Touches place disk disk' :=
  ⟨h.frame.mono (by simp), h.number?⟩

/-- Writing a path of names writes the file at its place. -/
theorem write_spec (hwf : disk.WellFormed) (hsite : Site disk.cwd path place)
    (hlink : disk.NoLink place) {bytes : ByteArray} {disk' : Disk}
    (h : disk.write path bytes = .ok disk') :
    disk' = disk.fill place bytes ∧ Touches place disk disk' := by
  obtain ⟨parent, name, rfl⟩ := hsite.exists_name
  have hfill : disk.get? parent = some .dir → disk.DeadEnd (parent ++ [name]) →
      Touches (parent ++ [name]) disk (disk.fill (parent ++ [name]) bytes) :=
    fun hparent hend => ⟨frame_fill hwf hparent hend bytes, by simp⟩
  rw [write] at h
  cases hthere : disk.get? (parent ++ [name]) with
  | none =>
      rcases find_of_absent hsite hlink hthere .write with hfind | ⟨cause, hfind⟩
      · obtain ⟨-, above, last, hplace, habove⟩ := free_of_find hwf hfind
        obtain ⟨rfl, -⟩ := List.append_inj' hplace rfl
        simp only [hfind, Except.ok.injEq] at h
        subst h
        exact ⟨rfl, hfill habove fun entry hentry => by simp [hthere] at hentry⟩
      · simp [hfind] at h
  | some entry =>
      rw [find_of_there hwf hsite hlink hthere .write] at h
      cases entry with
      | file old =>
          simp only [Except.ok.injEq] at h
          subst h
          have hparent := hwf.parent parent name (by rw [hthere]; simp)
          refine ⟨rfl, hfill hparent fun entry hentry => ?_⟩
          exact ⟨old, Option.some.inj (hentry.symm.trans hthere)⟩
      | link target => simp at h
      | dir => simp at h

/-- The files are named as before, or the name of the temporary file was taken to the place. -/
def Renamed (place temporary : Place) (disk disk' : Disk) : Prop :=
  (∀ other, disk'.number? other = disk.number? other) ∨
    ∀ other, disk'.number? other
      = if other = place then disk.number? temporary else if other = temporary then none
        else disk.number? other

/-- Moving a file to another path of names writes the file at its place. -/
theorem move_spec (hwf : disk.WellFormed) (hsite : Site disk.cwd path place)
    (hlink : disk.NoLink place) {source : String} {origin : Place}
    (hsource : Site disk.cwd source origin) (hlinkSource : disk.NoLink origin)
    (hapart : ¬disk.SameFile origin place) {bytes : ByteArray}
    (hthere : disk.get? origin = some (.file bytes)) {disk' : Disk}
    (h : disk.move source path = .ok disk') :
    disk'.fileAt place = some bytes ∧ Frame [place, origin] disk disk' ∧
      Renamed place origin disk disk' := by
  have hne : origin ≠ place := by
    rintro rfl
    exact hapart (sameFile_refl disk origin)
  obtain ⟨parent, name, rfl⟩ := hsite.exists_name
  have hdone : disk.get? parent = some .dir → disk.get? (parent ++ [name]) ≠ some .dir →
      disk' = disk.rename origin (parent ++ [name]) (.file bytes) →
      disk'.fileAt (parent ++ [name]) = some bytes ∧
        Frame [parent ++ [name], origin] disk disk' ∧
        Renamed (parent ++ [name]) origin disk disk' := by
    rintro hparent hplace rfl
    have hmovable : Movable disk origin (parent ++ [name]) (.file bytes) :=
      ⟨hwf, hthere, by simp, hne, hplace, parent, name, rfl, hparent⟩
    refine ⟨?_, hmovable.frame_rename, .inr (number?_rename disk _ hne)⟩
    rw [fileAt, hmovable.get?_rename, if_pos rfl]
  rw [move, find_of_there hwf hsource hlinkSource hthere .change, findTarget, hsite.ending_eq] at h
  simp only at h
  cases hplace : disk.get? (parent ++ [name]) with
  | none =>
      rcases find_of_absent hsite hlink hplace .change with hfind | ⟨cause, hfind⟩
      · obtain ⟨-, above, last, heq, habove⟩ := free_of_find hwf hfind
        obtain ⟨rfl, -⟩ := List.append_inj' heq rfl
        simp only [hfind, Except.ok.injEq] at h
        exact hdone habove (by rw [hplace]; simp) h.symm
      · simp [hfind] at h
  | some entry =>
      rw [find_of_there hwf hsite hlink hplace .change] at h
      have hparent := hwf.parent parent name (by rw [hplace]; simp)
      cases entry with
      | file old =>
          simp only [if_neg hapart, Except.ok.injEq] at h
          exact hdone hparent (by rw [hplace]; simp) h.symm
      | link target => exact absurd hplace (hlink _ (List.prefix_refl _) target)
      | dir => simp at h

end

/-! ## Saves -/

/-- The places of a file that is saved and of its temporary file. -/
structure Slot (cwd : Place) (path : String) (place temporary : Place) : Prop where
  site : Site cwd path place
  temporarySite : Site cwd (temporaryPath path) temporary
  ne : temporary ≠ place

/-- What a save of some bytes leaves behind: the file at its place holds them if the save
succeeds, and is as it was if it fails. -/
structure Saved (place temporary : Place) (bytes : ByteArray) (disk : Disk)
    (after : Disk × Except SaveError Unit) : Prop where
  frame : Frame (place :: disk.names temporary) disk after.1
  renamed : Renamed place temporary disk after.1
  kept : after.2 = .ok () → after.1.fileAt place = some bytes
  failed : ∀ e, after.2 = .error e → after.1.fileAt place = disk.fileAt place

section

variable {disk disk' : Disk} {path : String} {place temporary : Place} {bytes : ByteArray}

/-- A save that fails and has changed the temporary file at most. -/
theorem Saved.of_error (hapart : ¬disk.SameFile temporary place)
    (h : Touches temporary disk disk') (e : SaveError) :
    Saved place temporary bytes disk (disk', .error e) where
  frame := h.frame.mono fun _ hmem => List.mem_cons_of_mem _ hmem
  renamed := .inl h.number?
  kept := fun hok => by cases hok
  failed := fun _ _ => h.frame.files place (mt mem_names.mp hapart)

/-- Two places that are names of different files stay so while one of them is written. -/
theorem Touches.sameFile_iff {place other third : Place} (h : Touches third disk disk') :
    disk'.SameFile place other ↔ disk.SameFile place other :=
  sameFile_congr (h.number? place) (h.number? other)

/-- A save after a step that changed the temporary file at most. -/
theorem Saved.after (hapart : ¬disk.SameFile temporary place) (h : Touches temporary disk disk')
    {after : Disk × Except SaveError Unit} (hsaved : Saved place temporary bytes disk' after) :
    Saved place temporary bytes disk after where
  frame := by
    refine (h.frame.mono fun _ hmem => List.mem_cons_of_mem _ hmem).trans
      (hsaved.frame.mono fun other hmem => ?_)
    rw [List.mem_cons, mem_names, h.sameFile_iff] at hmem
    rwa [List.mem_cons, mem_names]
  renamed := by
    refine hsaved.renamed.imp (fun hsame other => (hsame other).trans (h.number? other)) ?_
    intro hmoved other
    rw [hmoved other, h.number? temporary, h.number? other]
  kept := hsaved.kept
  failed := fun e he =>
    (hsaved.failed e he).trans (h.frame.files place (mt mem_names.mp hapart))

/-- Moving the temporary file into place. -/
theorem moveIntoPlace_spec (hwf : disk.WellFormed) (hslot : Slot disk.cwd path place temporary)
    (hlink : disk.NoLink place) (hlinkTemporary : disk.NoLink temporary)
    (hapart : ¬disk.SameFile temporary place)
    (hthere : disk.get? temporary = some (.file bytes)) (fault : Option SaveFault) :
    Saved place temporary bytes disk (disk.moveIntoPlace fault path) := by
  unfold moveIntoPlace
  split
  · exact .of_error hapart (.refl hwf) _
  · cases hmoved : disk.move (temporaryPath path) path with
    | error cause => exact .of_error hapart (.refl hwf) _
    | ok disk' =>
        obtain ⟨hfile, hframe, hrenamed⟩ := move_spec hwf hslot.site hlink hslot.temporarySite
          hlinkTemporary hapart hthere hmoved
        refine ⟨hframe.mono fun other hmem => ?_, hrenamed, fun _ => hfile, fun e he => by cases he⟩
        rw [List.mem_cons, List.mem_singleton] at hmem
        rw [List.mem_cons, mem_names]
        rcases hmem with heq | rfl
        · exact .inl heq
        · exact .inr (sameFile_refl disk _)

/-- Writing the temporary file and moving it into place. -/
theorem writeThrough_spec (hwf : disk.WellFormed) (hslot : Slot disk.cwd path place temporary)
    (hlink : disk.NoLink place) (hlinkTemporary : disk.NoLink temporary)
    (hapart : ¬disk.SameFile temporary place) (fault : Option SaveFault) (bytes : ByteArray) :
    Saved place temporary bytes disk (disk.writeThrough fault path bytes) := by
  have hwritten : ∀ {part : ByteArray} {disk' : Disk},
      disk.write (temporaryPath path) part = .ok disk' →
      disk' = disk.fill temporary part ∧ Touches temporary disk disk' :=
    fun h => write_spec hwf hslot.temporarySite hlinkTemporary h
  unfold writeThrough
  split
  · rename_i written cause
    cases hpart : disk.write (temporaryPath path) (bytes.extract 0 written) with
    | error cause =>
        simp only [hpart]
        exact .of_error hapart (.refl hwf) _
    | ok disk' =>
        simp only [hpart]
        exact .of_error hapart (hwritten hpart).2 _
  · cases hwhole : disk.write (temporaryPath path) bytes with
    | error cause =>
        simp only [hwhole]
        exact .of_error hapart (.refl hwf) _
    | ok disk' =>
        simp only [hwhole]
        obtain ⟨rfl, htouches⟩ := hwritten hwhole
        have hthere : (disk.fill temporary bytes).get? temporary = some (.file bytes) := by
          obtain ⟨parent, name, rfl⟩ := hslot.temporarySite.exists_name
          rw [get?_fill hwf (by simp), if_pos (mem_names.mpr (sameFile_refl disk _))]
        rw [← htouches.frame.cwd] at hslot
        exact .after hapart htouches (moveIntoPlace_spec htouches.frame.wellFormed hslot
          (htouches.frame.noLink hlink) (htouches.frame.noLink hlinkTemporary)
          (mt htouches.sameFile_iff.mp hapart) hthere fault)

/-- **What a save leaves behind.**  Whichever step of it fails, by itself or because of what
stands in its way, the file at its place is as it was; if none fails, it holds the text. -/
theorem save_spec (hwf : disk.WellFormed) (hslot : Slot disk.cwd path place temporary)
    (hlink : disk.NoLink place) (hlinkTemporary : disk.NoLink temporary)
    (hapart : ¬disk.SameFile temporary place) (fault : Option SaveFault) (text : String) :
    Saved place temporary text.toUTF8 disk (disk.save fault path text) := by
  unfold save
  split
  · exact .of_error hapart (.refl hwf) _
  · have htouches : Touches temporary disk (disk.makeParent path).1 :=
      (grows_makeParent hwf path).touches
    rcases hmade : disk.makeParent path with ⟨made, e | _⟩
    · rw [hmade] at htouches
      exact .of_error hapart htouches e
    · rw [hmade] at htouches
      rw [← htouches.frame.cwd] at hslot
      exact .after hapart htouches (writeThrough_spec htouches.frame.wellFormed hslot
        (htouches.frame.noLink hlink) (htouches.frame.noLink hlinkTemporary)
        (mt htouches.sameFile_iff.mp hapart) fault _)

/-! ## Places of different files -/

/-- No two of the places are names of one file. -/
def Unshared (disk : Disk) (places : List Place) : Prop :=
  ∀ place ∈ places, ∀ other ∈ places, disk.SameFile place other → place = other

/-- Where no file has several names, no two places are names of one. -/
theorem unshared_of_numbers (h : disk.numbers = []) (places : List Place) :
    disk.Unshared places := by
  intro place _ other _ hsame
  rcases sameFile_iff.mp hsame with heq | ⟨n, hn, -⟩
  · exact heq
  · rw [number?, h] at hn
    cases hn

/-- A name that was taken to another of the places does not bring two of them together. -/
theorem Unshared.renamed {places : List Place} (h : disk.Unshared places)
    (hplace : place ∈ places) (htemporary : temporary ∈ places) (hne : temporary ≠ place)
    (hrenamed : Renamed place temporary disk disk') : disk'.Unshared places := by
  intro first hfirst second hsecond hsame
  rcases hrenamed with hnumber | hnumber
  · exact h first hfirst second hsecond
      ((sameFile_congr (hnumber first) (hnumber second)).mp hsame)
  · rw [Disk.sameFile_iff, hnumber, hnumber] at hsame
    rcases hsame with heq | ⟨n, hn, hother⟩
    · exact heq
    · -- What has a number afterwards had it before, at the temporary place if it is `place`.
      have hbefore : ∀ {here}, here ∈ places → (if here = place then disk.number? temporary
          else if here = temporary then none else disk.number? here) = some n →
          ∃ source ∈ places, disk.number? source = some n ∧
            (here = place ∧ source = temporary ∨ here ≠ temporary ∧ source = here) := by
        intro here hhere hnumber
        split at hnumber
        · rename_i heq
          exact ⟨temporary, htemporary, hnumber, .inl ⟨heq, rfl⟩⟩
        · split at hnumber
          · cases hnumber
          · rename_i hneTemporary
            exact ⟨here, hhere, hnumber, .inr ⟨hneTemporary, rfl⟩⟩
      obtain ⟨source, hmem, hnumberSource, hsource⟩ := hbefore hfirst hn
      obtain ⟨source', hmem', hnumberSource', hsource'⟩ := hbefore hsecond hother
      have heq := h source hmem source' hmem'
        (Disk.sameFile_iff.mpr (.inr ⟨n, hnumberSource, hnumberSource'⟩))
      rcases hsource with ⟨rfl, rfl⟩ | ⟨hfirstNe, rfl⟩
      · rcases hsource' with ⟨rfl, -⟩ | ⟨hsecondNe, rfl⟩
        · rfl
        · exact absurd heq.symm hsecondNe
      · rcases hsource' with ⟨-, rfl⟩ | ⟨-, rfl⟩
        · exact absurd heq hfirstNe
        · exact heq

end

end CodeIndex.Disk
