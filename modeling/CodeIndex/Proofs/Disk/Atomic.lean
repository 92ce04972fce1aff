import CodeIndex.Proofs.Disk.Keep

/-!
# A save is atomic

Whichever step of a save fails, what is read at its path is as it was, and if none fails it is the
whole new text.  This rests on the temporary file being another one.  Its name always is another;
but links lead anywhere, so a temporary path that is a link may still lead to the file itself, and
then a part of the text is read there after a failure, and nothing after a success.  In the same
way the temporary name may be a second name of the file itself.

* `Unentangled` : no link brings the two paths together; `unentangled_of_no_link` : where neither
  name is a link, nor are they names of one file, none does.
* `written_keeps` : what writing the temporary file leaves as it was.
* `save_atomic` : every save is atomic.
* `save_entangled` : a save beside a link to the file is not, nor one beside its second name.
-/

namespace CodeIndex.Disk

section

variable {disk disk' : Disk} {path : String} {place : Place}

/-- The place that the last name of a path is looked up at; behind it are only steps that stay. -/
def NameAt (disk : Disk) (path : String) (place : Place) : Prop :=
  ∃ front name rest home, steps path = front ++ .named name :: rest ∧ Stay rest ∧
    disk.Goes (disk.cwd, front) (home, []) ∧ place = home ++ [name]

/-- The path leads to a file that has a name at the place. -/
def LeadsToFile (disk : Disk) (path : String) (place : Place) : Prop :=
  ∃ there, disk.Leads path there ∧ disk.SameFile there place

/-- Links do not bring a path and the temporary one beside it together: they do not lead to one
file, at one place or under two names, and if the last name of the path is a link, the temporary
path does not come past it. -/
structure Unentangled (disk : Disk) (path : String) : Prop where
  differ : disk.Differ (temporaryPath path) path
  aside : ∀ place, disk.NameAt path place → disk.linkAt place ≠ none →
    ¬disk.Looks (disk.startOf (temporaryPath path)) place

/-- A path has its last name at the same place on disks with the same links. -/
theorem SameLinks.nameAt_iff (h : SameLinks disk disk') :
    disk'.NameAt path place ↔ disk.NameAt path place := by
  simp only [NameAt, h.cwd, h.goes_iff]

/-- A path leads to a file at the same place on disks with the same links. -/
theorem SameLinks.leadsToFile_iff (h : SameLinks disk disk') :
    disk'.LeadsToFile path place ↔ disk.LeadsToFile path place := by
  have hsame : ∀ there, disk'.SameFile there place ↔ disk.SameFile there place :=
    fun there => sameFile_congr (h.number? there) (h.number? place)
  simp only [LeadsToFile, h.leads_iff, hsame]

/-- A path keeps apart from its temporary path where the links stay. -/
theorem SameLinks.unentangled (h : SameLinks disk disk') (hpath : disk.Unentangled path) :
    disk'.Unentangled path where
  differ := h.differ_iff.mpr hpath.differ
  aside := by
    simpa only [h.nameAt_iff, h.linkAt, h.looks_iff, h.startOf_eq] using hpath.aside

/-- A path has one last name. -/
theorem NameAt.unique {other : Place} (h : disk.NameAt path place) (h' : disk.NameAt path other) :
    other = place := by
  obtain ⟨front, name, rest, home, hsteps, hstay, hgoes, rfl⟩ := h
  obtain ⟨front', name', rest', home', hsteps', hstay', hgoes', rfl⟩ := h'
  obtain ⟨rfl, hname, -⟩ := last_step_unique (named_not_stay name) (named_not_stay name') hstay
    hstay' (hsteps.symm.trans hsteps')
  cases hname
  rw [hgoes.end_unique hgoes']

/-- Steps that stay lead to where they start. -/
theorem Goes.eq_of_stay {start : Place} {way : List Step} (hstay : Stay way)
    (h : disk.Goes (start, way) (place, [])) : place = start := by
  induction way with
  | nil => exact congrArg Prod.fst h.eq_of_done
  | cons step way ih =>
      have hnext : step.next? start = some start := by
        rcases hstay step List.mem_cons_self with rfl | rfl <;> rfl
      rcases h.of_advances (advance?_of_next hnext way) with heq | hrest
      · cases heq
      · exact ih (fun step hmem => hstay step (List.mem_cons_of_mem _ hmem)) hrest

/-- A path whose last name is no link leads there, if it leads anywhere. -/
theorem Leads.exists_home {front rest : List Step} {name : String}
    (hsteps : steps path = front ++ .named name :: rest) (hstay : Stay rest)
    (hlink : ∀ place, disk.NameAt path place → disk.linkAt place = none)
    (h : disk.Leads path place) :
    ∃ home, disk.Goes (disk.cwd, front) (home, []) ∧ place = home ++ [name] := by
  rw [Leads, startOf, hsteps] at h
  rcases h.split with ⟨left, hleft, -⟩ | ⟨home, hhome, hrest⟩
  · simp at hleft
  · have hnone := hlink _ ⟨front, name, rest, home, hsteps, hstay, hhome, rfl⟩
    rcases hrest.of_advances (advance?_of_no_link hnone rest) with heq | hrest
    · cases heq
    · exact ⟨home, hhome, hrest.eq_of_stay hstay⟩

/-- Where neither name is a link, and they are not names of one file, the paths are not brought
together. -/
theorem unentangled_of_no_link {name : String} (hname : Path.fileName? path = some name)
    (hlink : ∀ place, disk.NameAt path place → disk.linkAt place = none)
    (hlinkTemporary : ∀ place, disk.NameAt (temporaryPath path) place → disk.linkAt place = none)
    (hapart : ∀ place other, disk.NameAt (temporaryPath path) place → disk.NameAt path other →
      disk.SameFile place other → place = other) : disk.Unentangled path where
  differ := by
    obtain ⟨front, temporary, rest, hsteps, hstay, htemporary, hne⟩ := steps_temporaryPath hname
    intro place other hleads hleads' hsame
    obtain ⟨home, hhome, rfl⟩ := hleads'.exists_home hsteps hstay hlink
    obtain ⟨home', hhome', rfl⟩ := hleads.exists_home htemporary (by simp [Stay]) hlinkTemporary
    have heq := hapart _ _ ⟨front, temporary, [], home', htemporary, by simp [Stay], hhome', rfl⟩
      ⟨front, name, rest, home, hsteps, hstay, hhome, rfl⟩ hsame
    rw [hhome.end_unique hhome', List.append_cancel_left_eq, List.singleton_inj] at heq
    exact hne heq
  aside := fun place hplace hsome => absurd (hlink place hplace) hsome

/-! ## Writing the temporary file -/

/-- What stands at the place is the same on the second disk, unless a directory was made there. -/
def Untouched (disk disk' : Disk) (place : Place) : Prop :=
  disk'.get? place = disk.get? place ∨ (disk.get? place = none ∧ disk'.get? place = some .dir)

/-- Writing some bytes to the temporary file keeps all links, everything but the file that it leads
to, and what is read at the path. -/
theorem written_keeps {part : ByteArray} (hwf : disk.WellFormed) (h : disk.Unentangled path)
    (hwrite : disk.write (temporaryPath path) part = .ok disk') :
    SameLinks disk disk' ∧
      (∀ place, ¬disk.LeadsToFile (temporaryPath path) place →
        disk'.get? place = disk.get? place) ∧
      ∀ old, disk.read path = .ok old → disk'.read path = .ok old := by
  obtain ⟨found, hwalks, hdir, rfl, -⟩ := exists_of_write hwf hwrite
  have hleads : disk.Leads (temporaryPath path) found.place := hwalks.leads (by simp) hdir
  have hget : ∀ place, place ∉ disk.names found.place →
      (disk.fill found.place part).get? place = disk.get? place := by
    intro place hplace
    rw [hwalks.get?_fill hwf hdir, if_neg hplace]
  refine ⟨hwalks.sameLinks_fill hwf (by simp) hdir part, fun place hplace => hget place ?_, ?_⟩
  · exact fun hmem => hplace ⟨found.place, hleads, mem_names.mp hmem⟩
  · intro old hread
    obtain ⟨hvalid, place, hpath⟩ := read_eq_ok_iff.mp hread
    have hpathLeads : disk.Leads path place := hpath.leads (by simp) (by simp [Found.there?])
    refine read_eq_ok_iff.mpr ⟨hvalid, place, ?_⟩
    rw [cwd_fill]
    refine hpath.keep (by simp [Found.there?]) (hwalks.deadEnds hwf (by simp) hdir) ?_ ?_
    · exact fun hmem => h.differ _ _ hleads hpathLeads (mem_names.mp hmem)
    · intro place entry _ hplace hthere
      rw [hget place hplace, hthere]

/-! ## Moving it into place -/

/-- The path has its last name at the target. -/
theorem Beside.target_nameAt (b : Beside disk path) : disk.NameAt path b.target :=
  ⟨b.front, b.name, [], b.home, b.steps_eq, by simp [Stay], b.comes.goes, rfl⟩

/-- The temporary path has its last name at the origin. -/
theorem Beside.origin_nameAt (b : Beside disk path) :
    disk.NameAt (temporaryPath path) b.origin :=
  ⟨b.front, b.temporary, [], b.home, b.temporary_steps, by simp [Stay], b.comes.goes, rfl⟩

/-- A temporary file that was moved into place did not come past the file's own name. -/
theorem Swap.aside {bytes : ByteArray} (swap : Swap disk disk' path bytes)
    (h : disk.Unentangled path) : swap.Aside := by
  intro hlooks
  by_cases hlink : disk.linkAt swap.target = none
  · obtain ⟨home, name, rest, hplace, hgoes⟩ := hlooks
    obtain ⟨rfl, hname⟩ := List.append_inj' hplace rfl
    cases hname
    have hpast := hgoes.tail (advance?_of_no_link hlink rest)
    by_cases hrest : rest = []
    · subst hrest
      exact h.differ _ _ hpast (swap.goes.tail (advance?_of_no_link hlink []))
        (sameFile_refl disk _)
    · exact swap.target_noDir (swap.dir_of_goes hpast hrest)
  · exact h.aside _ swap.target_nameAt hlink hlooks

/-! ## Saves -/

/-- A place is untouched if only missing directories were made before. -/
theorem Untouched.of_grows {made : Disk} (h : Grows disk made)
    (hsame : disk'.get? place = made.get? place) : Untouched disk disk' place := by
  rw [Untouched, hsame]
  exact h.get? place

/-- What a save of some bytes to a path leaves behind.  If it fails, all links are as they were, and
so is the file that the path leads to, under each of its names; what was read at the path is still
read there.  If it succeeds, the bytes are read at the path.  Either way nothing changes but the
two names in their directory and the file that the temporary path leads to, unless a directory is
made. -/
structure Atomic (disk : Disk) (path : String) (bytes : ByteArray)
    (after : Disk × Except SaveError Unit) : Prop where
  failed : ∀ e, after.2 = .error e → SameLinks disk after.1 ∧
    (∀ place, disk.LeadsToFile path place → Untouched disk after.1 place) ∧
    ∀ old, disk.read path = .ok old → after.1.read path = .ok old
  kept : after.2 = .ok () → after.1.read path = .ok bytes
  others : ∀ place, ¬disk.NameAt path place → ¬disk.NameAt (temporaryPath path) place →
    ¬disk.LeadsToFile (temporaryPath path) place → Untouched disk after.1 place

/-- A save that fails is atomic if it changed no link, nothing but the file that the temporary path
leads to, and not what is read at the path. -/
theorem Atomic.of_error {bytes : ByteArray} (h : disk.Unentangled path)
    (hlinks : SameLinks disk disk')
    (hsame : ∀ place, ¬disk.LeadsToFile (temporaryPath path) place → Untouched disk disk' place)
    (hread : ∀ old, disk.read path = .ok old → disk'.read path = .ok old) (e : SaveError) :
    disk.Atomic path bytes (disk', .error e) where
  failed := by
    refine fun _ _ => ⟨hlinks, fun place hleads => hsame place ?_, hread⟩
    rintro ⟨there, htemporary, hthere⟩
    obtain ⟨there', hpath, hthere'⟩ := hleads
    exact h.differ there there' htemporary hpath (sameFile_trans hthere (sameFile_symm hthere'))
  kept := fun hok => by cases hok
  others := fun place _ _ htemporary => hsame place htemporary

/-- **A save is atomic**, for every text, every path with a file name and every state of the disk in
which no link brings the path and the temporary one together, whichever step fails by itself or
because of what stands in its way. -/
theorem save_atomic {name : String} (hwf : disk.WellFormed)
    (hname : Path.fileName? path = some name) (h : disk.Unentangled path)
    (fault : Option SaveFault) (text : String) :
    temporaryPath path ≠ path ∧ disk.Atomic path text.toUTF8 (disk.save fault path text) := by
  refine ⟨temporaryPath_ne hname, ?_⟩
  have hgrows := grows_makeParent hwf path
  have hmade := hgrows.sameLinks.unentangled h
  have hends := saves_save disk fault path text
  generalize disk.save fault path text = after at hends ⊢
  cases hends with
  | refused e =>
      exact .of_error h ⟨rfl, fun _ => rfl, fun _ => rfl⟩ (fun _ _ => .inl rfl) (fun _ hread => hread) e
  | made e =>
      exact .of_error h hgrows.sameLinks (fun _ _ => hgrows.get? _) (fun _ => hgrows.read) e
  | written e hwrite =>
      obtain ⟨hlinks, hsame, hread⟩ := written_keeps hgrows.wellFormed hmade hwrite
      refine .of_error h (hgrows.sameLinks.trans hlinks) (fun place hplace => ?_)
        (fun old hold => hread old (hgrows.read hold)) e
      rw [← hgrows.sameLinks.leadsToFile_iff] at hplace
      exact .of_grows hgrows (hsame place hplace)
  | moved hwrite hmove =>
      obtain ⟨swap⟩ := exists_swap hgrows.wellFormed hmade.differ hwrite hmove
      refine ⟨fun e he => ?_, fun _ => swap.read (swap.aside hmade), ?_⟩
      · cases he
      · intro place hpath htemporary hleads
        rw [← hgrows.sameLinks.nameAt_iff] at hpath htemporary
        rw [← hgrows.sameLinks.leadsToFile_iff] at hleads
        refine .of_grows hgrows (swap.get?_of_ne ?_ ?_ ?_)
        · rintro rfl
          exact hpath swap.target_nameAt
        · rintro rfl
          exact htemporary swap.origin_nameAt
        · exact fun hmem => hleads ⟨_, swap.leads, mem_names.mp hmem⟩

/-- A disk with an index behind a link to its directory, and a second name of the index. -/
def linkedDir : Disk where
  entries := [(["data"], .dir), (["latest"], .link "data"),
    (["data", "index.json"], .file "old".toUTF8), (["backup.json"], .file "old".toUTF8)]
  numbers := [(["data", "index.json"], 0), (["backup.json"], 0)]

/-- It is well-formed. -/
theorem wellFormed_linkedDir : linkedDir.WellFormed :=
  wellFormed_of_entries (by simp [linkedDir, get?, findEntry]) rfl
    (by simp [linkedDir, get?, findEntry])

/-- Its names lead to the directory behind the link. -/
theorem nameAt_linkedDir {path name : String} (h : steps path = [.named "latest", .named name]) :
    linkedDir.NameAt path ["data", name] :=
  have hend : (["data"], []) ∈ linkedDir.trail 3 ([], [.named "latest"]) := by decide +kernel
  ⟨[.named "latest"], name, [], ["data"], h, by simp [Stay], (mem_trail hend).mpr hend, rfl⟩

/-- The index is named in that directory. -/
theorem nameAt_linkedDir_path : linkedDir.NameAt "latest/index.json" ["data", "index.json"] :=
  nameAt_linkedDir (by decide +kernel)

/-- So is its temporary file. -/
theorem nameAt_linkedDir_temporary :
    linkedDir.NameAt (temporaryPath "latest/index.json") ["data", "index.json.tmp"] :=
  nameAt_linkedDir (by decide +kernel)

/-- Neither the link nor the second name brings the two paths together. -/
theorem unentangled_linkedDir : linkedDir.Unentangled "latest/index.json" := by
  refine unentangled_of_no_link (show _ = some "index.json" by decide +kernel)
    (fun place hplace => ?_) (fun place hplace => ?_) (fun place other hplace hother hsame => ?_)
  · rw [nameAt_linkedDir_path.unique hplace]
    rfl
  · rw [nameAt_linkedDir_temporary.unique hplace]
    rfl
  · rw [nameAt_linkedDir_temporary.unique hplace, nameAt_linkedDir_path.unique hother] at hsame
    exact absurd hsame (by decide +kernel)

/-- The temporary path does not lead to the file with two names. -/
theorem not_leadsToFile_linkedDir :
    ¬linkedDir.LeadsToFile (temporaryPath "latest/index.json") ["backup.json"] := by
  have hend : (["data", "index.json.tmp"], []) ∈ linkedDir.trail 5
      (linkedDir.startOf (temporaryPath "latest/index.json")) := by decide +kernel
  rintro ⟨there, hleads, hsame⟩
  rw [Goes.end_unique ((mem_trail hend).mpr hend) hleads] at hsame
  exact absurd hsame (by decide +kernel)

/-- A save through that link keeps the old text if the writing fails, and otherwise the new one is
read, while the old text stays under its second name. -/
theorem save_atomic_linkedDir :
    linkedDir.WellFormed ∧ Path.fileName? "latest/index.json" = some "index.json" ∧
      linkedDir.Unentangled "latest/index.json" ∧
      (∃ old, linkedDir.read "latest/index.json" = .ok old ∧
        (linkedDir.save (some (.write 1 .busy)) "latest/index.json" "new").1.read
          "latest/index.json" = .ok old) ∧
      (linkedDir.save none "latest/index.json" "new").1.read "latest/index.json"
        = .ok "new".toUTF8 ∧
      Untouched linkedDir (linkedDir.save none "latest/index.json" "new").1 ["backup.json"] := by
  have hname : Path.fileName? "latest/index.json" = some "index.json" := by decide +kernel
  have hread : ∃ old, linkedDir.read "latest/index.json" = .ok old := by
    have hok : (linkedDir.read "latest/index.json").isOk = true := by decide +kernel
    cases hold : linkedDir.read "latest/index.json" with
    | ok old => exact ⟨old, rfl⟩
    | error e =>
        rw [hold] at hok
        cases hok
  have hsaves := save_atomic wellFormed_linkedDir hname unentangled_linkedDir
  obtain ⟨-, hdone⟩ := hsaves none "new"
  obtain ⟨-, hstopped⟩ := hsaves (some (.write 1 .busy)) "new"
  obtain ⟨old, hold⟩ := hread
  refine ⟨wellFormed_linkedDir, hname, unentangled_linkedDir, ⟨old, hold, ?_⟩,
    hdone.kept (by decide +kernel), ?_⟩
  · exact (hstopped.failed (.write "latest/index.json.tmp" .busy) (by decide +kernel)).2.2 _ hold
  · refine hdone.others _ (fun hother => ?_) (fun hother => ?_) not_leadsToFile_linkedDir
    · exact absurd (nameAt_linkedDir_path.unique hother) (by decide)
    · exact absurd (nameAt_linkedDir_temporary.unique hother) (by decide)

/-- An index and a link to it that has the name of its temporary file. -/
def linkedFile : Disk where
  entries := [(["index.json"], .file "old".toUTF8), (["index.json.tmp"], .link "index.json")]

/-- An index with a second name, which is that of its temporary file. -/
def sharedFile : Disk where
  entries := [(["index.json"], .file "old".toUTF8), (["index.json.tmp"], .file "old".toUTF8)]
  numbers := [(["index.json"], 0), (["index.json.tmp"], 0)]

/-- A save beside such a link is not atomic: if the writing fails, a part of the text is read, and
if nothing fails, nothing can be read any more.  Beside such a second name a part of the text is
read as well if the writing fails. -/
theorem save_entangled :
    (linkedFile.WellFormed ∧ sharedFile.WellFormed) ∧
      Path.fileName? "index.json" = some "index.json" ∧
      ((linkedFile.save (some (.write 1 .busy)) "index.json" "new").2
          = .error (.write "index.json.tmp" .busy) ∧
        linkedFile.readText? "index.json" = some "old" ∧
        (linkedFile.save (some (.write 1 .busy)) "index.json" "new").1.readText? "index.json"
          = some "n" ∧
        (linkedFile.save none "index.json" "new").2 = .ok () ∧
        (linkedFile.save none "index.json" "new").1.read "index.json" = .error .tooManyLinks) ∧
      (sharedFile.save (some (.write 1 .busy)) "index.json" "new").2
          = .error (.write "index.json.tmp" .busy) ∧
        sharedFile.readText? "index.json" = some "old" ∧
        (sharedFile.save (some (.write 1 .busy)) "index.json" "new").1.readText? "index.json"
          = some "n" := by
  refine ⟨⟨?_, ?_⟩, ?_⟩
  · exact wellFormed_of_entries (by simp [linkedFile, get?, findEntry]) rfl (by simp [linkedFile])
  · exact wellFormed_of_entries (by simp [sharedFile, get?, findEntry]) rfl
      (by simp [sharedFile, get?, findEntry])
  · decide +kernel

end

end CodeIndex.Disk
