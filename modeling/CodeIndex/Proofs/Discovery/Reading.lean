import CodeIndex.Proofs.Disk.Swap
import CodeIndex.Proofs.Discovery.Names

/-!
# Reading below a root

A path that is built from the path of a directory by appending the names of what stands below it
leads there: the walk to the directory goes on through the directories in between, and passes no
more links.  So the file at its end is read, unless the path or one of the names is too long.

* `Walks.comes`, `Comes.append`, `comes_names` : a walk to a directory, and on through others.
* `read_pathOf` : the bytes that are read are those of the file below the directory.
-/

namespace CodeIndex.Disk

section

variable {disk : Disk} {aim : Aim} {links left less : Nat} {start home place : Place}
  {way more : List Step} {names : List String}

/-- A walk that finds a directory comes there. -/
theorem Walks.comes {found : Found} (h : Walks disk aim links start way found)
    (hdir : found = .taken home .dir) : ∃ left, Comes disk links start way left home := by
  induction h with
  | @done links start =>
      cases hdir
      exact ⟨links, .done⟩
  | next hstep _ ih =>
      obtain ⟨left, hcomes⟩ := ih hdir
      exact ⟨left, .next hstep hcomes⟩
  | dir hsize _ hthere _ ih =>
      obtain ⟨left, hcomes⟩ := ih hdir
      exact ⟨left, .dir hsize hthere hcomes⟩
  | link hsize _ hlink _ _ ih =>
      obtain ⟨left, hcomes⟩ := ih hdir
      exact ⟨left, .link hsize hlink hcomes⟩
  | @last _ _ _ entry _ _ hnone _ =>
      have hthere := congrArg Found.there? hdir
      rw [Found.there?_ofEntry] at hthere
      exact absurd hthere hnone

/-- A slash at the end makes no difference. -/
theorem Comes.without_slash (h : Comes disk links start (way ++ [.slash]) left home) :
    Comes disk links start way left home := by
  generalize hwhole : way ++ [.slash] = whole at h
  induction h generalizing way with
  | done => simp at hwhole
  | next hstep h ih =>
      cases way with
      | nil =>
          cases hwhole
          cases hstep
          exact h
      | cons first way =>
          obtain ⟨rfl, hrest⟩ := List.cons.inj hwhole
          exact .next hstep (ih hrest)
  | dir hsize hdir _ ih =>
      cases way with
      | nil => cases hwhole
      | cons first way =>
          obtain ⟨rfl, hrest⟩ := List.cons.inj hwhole
          exact .dir hsize hdir (ih hrest)
  | link hsize hlink _ ih =>
      cases way with
      | nil => cases hwhole
      | cons first way =>
          obtain ⟨rfl, hrest⟩ := List.cons.inj hwhole
          refine .link hsize hlink (ih ?_)
          rw [List.append_assoc]
          exact congrArg _ hrest

/-- One walk goes on where another came to. -/
theorem Comes.append (h : Comes disk links start way left home)
    (hmore : Comes disk left home more less place) :
    Comes disk links start (way ++ more) less place := by
  induction h with
  | done => exact hmore
  | next hstep _ ih => exact .next hstep (ih hmore)
  | dir hsize hdir _ ih => exact .dir hsize hdir (ih hmore)
  | link hsize hlink _ ih =>
      have hgoes := ih hmore
      rw [List.append_assoc] at hgoes
      exact .link hsize hlink hgoes

/-- The names of a directory lead there from every directory above, past no link. -/
theorem comes_names (hwf : disk.WellFormed) (hsizes : ∀ name ∈ names, name.utf8ByteSize ≤ nameLimit)
    (hdir : disk.get? (start ++ names) = some .dir) (links : Nat) :
    Comes disk links start (names.map .named) links (start ++ names) := by
  induction names generalizing start with
  | nil =>
      rw [List.append_nil]
      exact .done
  | cons name names ih =>
      obtain ⟨hsize, hsizes⟩ := List.forall_mem_cons.mp hsizes
      rw [List.append_cons] at hdir ⊢
      refine .dir hsize ?_ (ih hsizes hdir)
      by_cases hmore : names = []
      · rwa [hmore, List.append_nil] at hdir
      · have hthere : disk.get? (start ++ [name] ++ names) ≠ none := by
          rw [hdir]
          exact Option.some_ne_none _
        exact hwf.of_prefix (List.prefix_append _ _) (by simp [hmore]) hthere

/-- A file in a directory below is found at the end of its names. -/
theorem Comes.walks_file (hwf : disk.WellFormed) (h : Comes disk links start way left home)
    {bytes : ByteArray} (hne : names ≠ []) (hsizes : ∀ name ∈ names, name.utf8ByteSize ≤ nameLimit)
    (hfile : disk.get? (home ++ names) = some (.file bytes)) :
    Walks disk .use links start (way ++ names.map .named)
      (.taken (home ++ names) (.file bytes)) := by
  obtain ⟨above, name, rfl⟩ := (List.eq_nil_or_concat' names).resolve_left hne
  have hdir : disk.get? (home ++ above) = some .dir :=
    hwf.parent _ name (by rw [List.append_assoc, hfile]; simp)
  have habove : ∀ name ∈ above, name.utf8ByteSize ≤ nameLimit :=
    fun name hname => hsizes name (List.mem_append_left _ hname)
  have hlast : Walks disk .use left (home ++ above) [.named name]
      (.ofEntry (home ++ above ++ [name]) (some (.file bytes))) :=
    .last (hsizes name (by simp)) (by rw [List.append_assoc, hfile]) (by simp) (by simp)
  have hwalks := (h.append (comes_names hwf habove hdir left)).walks hlast
  rw [List.append_assoc, List.append_assoc] at hwalks
  rwa [List.map_append]

end

section

variable {disk : Disk} {root : String} {place : Place} {names : List String} {bytes : ByteArray}

/-- A path that leads to a directory may be looked up, and a walk of its steps comes there. -/
theorem comes_of_directory (h : disk.directory? root = some place) :
    Valid root ∧ ∃ left, Comes disk linkLimit disk.cwd (steps root) left place := by
  have hfind : disk.find .use root = .ok (.taken place .dir) := by
    rw [directory?, lookup] at h
    match hfound : disk.find .use root with
    | .error cause => simp [hfound] at h
    | .ok (.free _) => simp [hfound] at h
    | .ok (.taken _ (.file _)) => simp [hfound] at h
    | .ok (.taken _ (.link _)) => simp [hfound] at h
    | .ok (.taken here .dir) =>
        simp only [hfound, Option.some.injEq] at h
        rw [h]
  obtain ⟨hvalid, hwalks⟩ := find_eq_ok_iff.mp hfind
  exact ⟨hvalid, hwalks.comes rfl⟩

/-- A root that is a directory is not empty. -/
theorem ne_empty_of_directory (h : disk.directory? root = some place) : root ≠ "" := by
  have hnonempty := (comes_of_directory h).1.nonempty
  rintro rfl
  cases hnonempty

/-- Only characters that a path may hold are in a path of such. -/
theorem plain_pathOf (hroot : root.toList.any (·.toNat == 0) = false)
    (hnames : ∀ name ∈ names, IsName name) :
    (Walk.pathOf root names).toList.any (·.toNat == 0) = false := by
  induction names generalizing root with
  | nil => exact hroot
  | cons name names ih =>
      obtain ⟨hname, hnames⟩ := List.forall_mem_cons.mp hnames
      have hzero : name.toList.any (·.toNat == 0) = false := by simpa using hname.no_zero
      refine ih ?_ hnames
      rw [Path.join]
      split
      · exact hzero
      · split
        · rw [String.toList_append, List.any_append, hroot, hzero]
          rfl
        · rw [String.toList_append, String.toList_append, List.any_append, List.any_append, hroot,
            hzero]
          rfl

/-- **A file below a directory is read at its path.**  What is read at the path of its names below
the directory's own path are its bytes, unless the path or a name is too long. -/
theorem read_pathOf (hwf : disk.WellFormed) (hroot : disk.directory? root = some place)
    (hnames : ∀ name ∈ names, IsName name) (hne : names ≠ [])
    (hsizes : ∀ name ∈ names, name.utf8ByteSize ≤ nameLimit)
    (hshort : (Walk.pathOf root names).utf8ByteSize ≤ pathLimit)
    (hfile : disk.get? (place ++ names) = some (.file bytes)) :
    disk.read (Walk.pathOf root names) = .ok bytes := by
  obtain ⟨hvalid, left, hcomes⟩ := comes_of_directory hroot
  have hempty := ne_empty_of_directory hroot
  obtain ⟨way, hway, hsteps⟩ := Walk.exists_steps_pathOf hempty
  replace hcomes : Comes disk linkLimit disk.cwd way left place := by
    rcases hway with hway | hway
    · rwa [hway] at hcomes
    · rw [hway] at hcomes
      exact hcomes.without_slash
  refine read_eq_ok_iff.mpr ⟨⟨plain_pathOf hvalid.plain hnames, ?_, hshort⟩, place ++ names, ?_⟩
  · rw [String.isEmpty_eq_false_iff]
    intro hnil
    have hcomponents := Walk.components_pathOf hempty hnames
    rw [hnil] at hcomponents
    exact Path.components_ne_nil hempty (List.append_eq_nil_iff.mp hcomponents.symm).1
  · rw [hsteps names hnames hne]
    exact hcomes.walks_file hwf hne hsizes hfile

end

end CodeIndex.Disk
