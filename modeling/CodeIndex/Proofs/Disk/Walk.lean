import CodeIndex.Proofs.Disk.Way

/-!
# Walks

A walk that succeeds, as a relation: a rule for steps that look at nothing, for directories, for
links, and for the last name.  All but the last name of a path is walked in the same way whatever
the aim, so a walk can be cut in front of it; and a walk depends on what it looks at only.

* `walk_eq_ok_iff` : a walk succeeds exactly by the rules.
* `Walks.cut`, `Comes.walks` : a walk up to the last name, and the last name.
* `Comes.goes`, `Walks.endsAt`, `Walks.leads` : a walk follows the way of its path.
* `Walks.dir_of_goes` : there are only directories on the way.
* `Comes.keep`, `Walks.keep`, `Walks.written` : a walk on another disk that has what it looks at.
-/

namespace CodeIndex.Disk

namespace Found

/-- The place that is found. -/
def place : Found → Place
  | taken place _ => place
  | free place => place

/-- What stands there. -/
def there? : Found → Option Entry
  | taken _ entry => some entry
  | free _ => none

/-- What is found at a place with something or nothing. -/
def ofEntry (place : Place) : Option Entry → Found
  | some entry => taken place entry
  | none => free place

/-- What is found at a place is at that place. -/
@[simp] theorem place_ofEntry (here : Place) (entry : Option Entry) :
    (ofEntry here entry).place = here := by
  cases entry <;> rfl

/-- What is found at a place is the entry that is there. -/
@[simp] theorem there?_ofEntry (here : Place) (entry : Option Entry) :
    (ofEntry here entry).there? = entry := by
  cases entry <;> rfl

/-- What is taken at a place is there. -/
theorem eq_of_taken {here place : Place} {entry : Entry} {there : Option Entry}
    (h : taken place entry = ofEntry here there) : place = here ∧ there = some entry := by
  cases there with
  | none => cases h
  | some other =>
      cases h
      exact ⟨rfl, rfl⟩

end Found

/-- Are only slashes left behind a name that a file is to be written at? -/
def onlySlashes (aim : Aim) (rest : List Step) : Bool :=
  aim == Aim.write && !rest.isEmpty && rest.all (· == Step.slash)

/-- The steps lead from a directory to what is found, passing at most so many links. -/
inductive Walks (disk : Disk) (aim : Aim) : Nat → Place → List Step → Found → Prop
  | done {links : Nat} {start : Place} : Walks disk aim links start [] (.taken start .dir)
  | next {links : Nat} {start next : Place} {step : Step} {rest : List Step} {found : Found}
      (hstep : step.next? start = some next) (h : Walks disk aim links next rest found) :
      Walks disk aim links start (step :: rest) found
  | dir {links : Nat} {start : Place} {name : String} {rest : List Step} {found : Found}
      (hsize : name.utf8ByteSize ≤ nameLimit) (hopen : onlySlashes aim rest = false)
      (hdir : disk.get? (start ++ [name]) = some .dir)
      (h : Walks disk aim links (start ++ [name]) rest found) :
      Walks disk aim links start (.named name :: rest) found
  | link {links : Nat} {start : Place} {name target : String} {rest : List Step} {found : Found}
      (hsize : name.utf8ByteSize ≤ nameLimit) (hopen : onlySlashes aim rest = false)
      (hlink : disk.get? (start ++ [name]) = some (.link target))
      (hfollow : aim = .change → rest ≠ [])
      (h : Walks disk aim links start (steps target ++ rest) found) :
      Walks disk aim (links + 1) start (.named name :: rest) found
  | last {links : Nat} {start : Place} {name : String} {entry : Option Entry}
      (hsize : name.utf8ByteSize ≤ nameLimit) (hthere : disk.get? (start ++ [name]) = entry)
      (hdir : entry ≠ some .dir) (hlink : ∀ target, entry = some (.link target) → aim = .change) :
      Walks disk aim links start [.named name] (.ofEntry (start ++ [name]) entry)

/-- The steps lead from a directory to a directory; `left` counts the links that may still be
passed from there. -/
inductive Comes (disk : Disk) : Nat → Place → List Step → Nat → Place → Prop
  | done {links : Nat} {start : Place} : Comes disk links start [] links start
  | next {links left : Nat} {start next home : Place} {step : Step} {rest : List Step}
      (hstep : step.next? start = some next) (h : Comes disk links next rest left home) :
      Comes disk links start (step :: rest) left home
  | dir {links left : Nat} {start home : Place} {name : String} {rest : List Step}
      (hsize : name.utf8ByteSize ≤ nameLimit) (hdir : disk.get? (start ++ [name]) = some .dir)
      (h : Comes disk links (start ++ [name]) rest left home) :
      Comes disk links start (.named name :: rest) left home
  | link {links left : Nat} {start home : Place} {name target : String} {rest : List Step}
      (hsize : name.utf8ByteSize ≤ nameLimit)
      (hlink : disk.get? (start ++ [name]) = some (.link target))
      (h : Comes disk links start (steps target ++ rest) left home) :
      Comes disk (links + 1) start (.named name :: rest) left home

/-! ## The rules and the function -/

section

variable {disk disk' : Disk} {aim : Aim} {links left : Nat} {start home : Place}
  {way : List Step} {name : String} {found : Found}

/-- One level of the walk is sound if the walks behind its links are. -/
theorem walks_of_walkWith {follow : Place → List Step → Except DiskError Found}
    (hfollow : ∀ start way found, follow start way = .ok found →
      ∃ fewer, links = fewer + 1 ∧ Walks disk aim fewer start way found)
    (h : disk.walkWith aim follow start way = .ok found) :
    Walks disk aim links start way found := by
  induction way generalizing start with
  | nil =>
      rw [walkWith, Except.ok.injEq] at h
      subst h
      exact .done
  | cons step rest ih =>
      cases step with
      | root | here | slash | up => exact .next rfl (ih h)
      | named name =>
          rw [walkWith] at h
          split at h
          · cases h
          · rename_i hopen
            replace hopen : onlySlashes aim rest = false := Bool.eq_false_iff.mpr hopen
            split at h
            · cases h
            · rename_i hsize
              replace hsize := Nat.not_lt.mp hsize
              cases hthere : disk.get? (start ++ [name]) with
              | none =>
                  simp only [hthere] at h
                  split at h
                  · rename_i hempty
                    rw [List.isEmpty_iff] at hempty
                    cases h
                    subst hempty
                    show Walks disk aim links start _ (.ofEntry (start ++ [name]) none)
                    exact .last hsize hthere (by simp) (by simp)
                  · cases h
              | some entry =>
                  cases entry with
                  | dir =>
                      simp only [hthere] at h
                      exact .dir hsize hopen hthere (ih h)
                  | file bytes =>
                      simp only [hthere] at h
                      split at h
                      · rename_i hempty
                        rw [List.isEmpty_iff] at hempty
                        cases h
                        subst hempty
                        show Walks disk aim links start _
                          (.ofEntry (start ++ [name]) (some (.file bytes)))
                        exact .last hsize hthere (by simp) (by simp)
                      · cases h
                  | link target =>
                      simp only [hthere] at h
                      split at h
                      · rename_i hlast
                        rw [Bool.and_eq_true, List.isEmpty_iff, beq_iff_eq] at hlast
                        cases h
                        obtain ⟨rfl, rfl⟩ := hlast
                        show Walks disk .change links start _
                          (.ofEntry (start ++ [name]) (some (.link target)))
                        exact .last hsize hthere (by simp) (by simp)
                      · rename_i hlast
                        obtain ⟨fewer, rfl, hwalks⟩ := hfollow _ _ _ h
                        refine .link hsize hopen hthere ?_ hwalks
                        rintro rfl rfl
                        exact hlast rfl

/-- A walk that succeeds is one of the relation. -/
theorem walks_of_walk (h : disk.walk aim links start way = .ok found) :
    Walks disk aim links start way found := by
  induction links generalizing start way found with
  | zero =>
      refine walks_of_walkWith ?_ h
      intro start way found herror
      cases herror
  | succ links ih =>
      refine walks_of_walkWith ?_ h
      intro start way found hwalk
      exact ⟨links, rfl, ih hwalk⟩

/-- A walk of the relation succeeds. -/
theorem walk_of_walks (h : Walks disk aim links start way found) :
    disk.walk aim links start way = .ok found := by
  induction h with
  | @done links start => cases links <;> rfl
  | @next links start next step rest found hstep _ ih =>
      cases step with
      | named name => cases hstep
      | root | here | slash | up =>
          cases hstep
          cases links <;> exact ih
  | @dir links start name rest found hsize hopen hdir _ ih =>
      unfold onlySlashes at hopen
      cases links <;>
      · rw [walk, walkWith]
        simp only [hopen, Nat.not_lt.mpr hsize, hdir, Bool.false_eq_true, if_false]
        exact ih
  | @link links start name target rest found hsize hopen hlink hfollow _ ih =>
      unfold onlySlashes at hopen
      have hlast : (rest.isEmpty && aim == Aim.change) = false := by
        rw [Bool.eq_false_iff, Ne, Bool.and_eq_true, List.isEmpty_iff, beq_iff_eq]
        rintro ⟨hempty, haim⟩
        exact hfollow haim hempty
      rw [walk, walkWith]
      simp only [hopen, Nat.not_lt.mpr hsize, hlink, hlast, Bool.false_eq_true, if_false]
      exact ih
  | @last links start name entry hsize hthere hdir hlink =>
      cases links <;>
      · rw [walk, walkWith]
        simp only [List.isEmpty_nil, Bool.not_true, Bool.and_false, Bool.false_and,
          Bool.false_eq_true, if_false, Nat.not_lt.mpr hsize, if_true, Bool.true_and, hthere]
        cases entry with
        | none => rfl
        | some there =>
            cases there with
            | dir => exact absurd rfl hdir
            | file bytes => rfl
            | link target => simp [hlink target rfl, Found.ofEntry]

/-- A walk succeeds exactly by the rules. -/
theorem walk_eq_ok_iff :
    disk.walk aim links start way = .ok found ↔ Walks disk aim links start way found :=
  ⟨walks_of_walk, walk_of_walks⟩

/-! ## Up to the last name -/

/-- A walk up to its last name. -/
theorem Walks.cut (h : Walks disk aim links start (way ++ [.named name]) found) :
    ∃ left home, Comes disk links start way left home ∧
      Walks disk aim left home [.named name] found := by
  generalize hwhole : way ++ [.named name] = whole at h
  induction h generalizing way with
  | done => simp at hwhole
  | @next links start next step rest found hstep h ih =>
      cases way with
      | nil =>
          cases hwhole
          cases hstep
      | cons first way =>
          obtain ⟨rfl, hrest⟩ := List.cons.inj hwhole
          obtain ⟨left, home, hcomes, hlast⟩ := ih hrest
          exact ⟨left, home, .next hstep hcomes, hlast⟩
  | @dir links start first rest found hsize hopen hdir h ih =>
      cases way with
      | nil =>
          cases hwhole
          exact ⟨links, start, .done, .dir hsize hopen hdir h⟩
      | cons step way =>
          obtain ⟨rfl, hrest⟩ := List.cons.inj hwhole
          obtain ⟨left, home, hcomes, hlast⟩ := ih hrest
          exact ⟨left, home, .dir hsize hdir hcomes, hlast⟩
  | @link links start first target rest found hsize hopen hlink hfollow h ih =>
      cases way with
      | nil =>
          cases hwhole
          exact ⟨links + 1, start, .done, .link hsize hopen hlink hfollow h⟩
      | cons step way =>
          obtain ⟨rfl, hrest⟩ := List.cons.inj hwhole
          have hmore : (steps target ++ way) ++ [.named name] = steps target ++ rest := by
            rw [List.append_assoc]
            exact congrArg _ hrest
          obtain ⟨left, home, hcomes, hlast⟩ := ih hmore
          exact ⟨left, home, .link hsize hlink hcomes, hlast⟩
  | @last links start first entry hsize hthere hdir hlink =>
      cases way with
      | nil =>
          cases hwhole
          exact ⟨links, start, .done, .last hsize hthere hdir hlink⟩
      | cons step way => simp at hwhole

/-- A way that ends in a name is more than slashes. -/
theorem onlySlashes_concat (aim : Aim) (rest : List Step) (name : String) :
    onlySlashes aim (rest ++ [.named name]) = false := by
  simp [onlySlashes]

/-- Any last name may be looked up behind a walk to its directory. -/
theorem Comes.walks (h : Comes disk links start way left home)
    (hlast : Walks disk aim left home [.named name] found) :
    Walks disk aim links start (way ++ [.named name]) found := by
  induction h with
  | done => exact hlast
  | next hstep _ ih => exact .next hstep (ih hlast)
  | @dir _ _ _ _ _ rest hsize hdir _ ih =>
      exact .dir hsize (onlySlashes_concat aim rest name) hdir (ih hlast)
  | @link _ _ _ _ _ target rest hsize hlink _ ih =>
      have hmore := ih hlast
      rw [List.append_assoc] at hmore
      exact .link hsize (onlySlashes_concat aim rest name) hlink (by simp) hmore

/-- What is found at the last name when its directory is to be changed. -/
theorem Walks.change_last (h : Walks disk .change links start [.named name] found) :
    found = .ofEntry (start ++ [name]) (disk.get? (start ++ [name])) := by
  cases h with
  | next hstep _ => cases hstep
  | dir _ _ hdir h =>
      cases h
      rw [hdir]
      rfl
  | link _ _ _ hfollow _ => exact absurd rfl (hfollow rfl)
  | last _ hthere _ _ => rw [hthere]

/-! ## Walks and ways -/

/-- A step that needs no look at the disk is taken. -/
theorem goes_of_next {step : Step} {next : Place} (hstep : step.next? start = some next)
    (rest : List Step) : disk.Goes (start, step :: rest) (next, rest) :=
  .single (advance?_of_next hstep rest)

/-- A walk enters a directory. -/
theorem goes_of_dir (hdir : disk.get? (start ++ [name]) = some .dir) (rest : List Step) :
    disk.Goes (start, .named name :: rest) (start ++ [name], rest) :=
  .single (advance?_of_no_link (linkAt_eq_none_iff.mpr (by simp [hdir])) rest)

/-- A walk goes on behind the target of a link. -/
theorem goes_of_link {target : String}
    (hlink : disk.get? (start ++ [name]) = some (.link target)) (rest : List Step) :
    disk.Goes (start, .named name :: rest) (start, steps target ++ rest) :=
  .single (advance?_of_link (linkAt_eq_some_iff.mpr hlink) rest)

/-- A walk to a directory follows the way of its steps. -/
theorem Comes.goes (h : Comes disk links start way left home) :
    disk.Goes (start, way) (home, []) := by
  induction h with
  | done => exact .refl
  | next hstep _ ih => exact (goes_of_next hstep _).trans ih
  | dir _ hdir _ ih => exact (goes_of_dir hdir _).trans ih
  | link _ hlink _ ih => exact (goes_of_link hlink _).trans ih

/-- What is found, unless it is a directory, is found at the last name of the way. -/
theorem Walks.endsAt (h : Walks disk aim links start way found)
    (hdir : found.there? ≠ some .dir) :
    disk.get? found.place = found.there? ∧
      (∀ target, found.there? = some (.link target) → aim = .change) ∧
      ∃ here name, found.place = here ++ [name] ∧ disk.Goes (start, way) (here, [.named name]) := by
  induction h with
  | done => exact absurd rfl hdir
  | next hstep _ ih =>
      obtain ⟨hthere, hlink, here, name, hplace, hgoes⟩ := ih hdir
      exact ⟨hthere, hlink, here, name, hplace, (goes_of_next hstep _).trans hgoes⟩
  | dir _ _ hstep _ ih =>
      obtain ⟨hthere, hlink, here, name, hplace, hgoes⟩ := ih hdir
      exact ⟨hthere, hlink, here, name, hplace, (goes_of_dir hstep _).trans hgoes⟩
  | link _ _ hstep _ _ ih =>
      obtain ⟨hthere, hlink, here, name, hplace, hgoes⟩ := ih hdir
      exact ⟨hthere, hlink, here, name, hplace, (goes_of_link hstep _).trans hgoes⟩
  | @last _ start name _ _ hthere _ hlink =>
      rw [Found.place_ofEntry, Found.there?_ofEntry]
      exact ⟨hthere, hlink, start, name, rfl, .refl⟩

/-- What is found, unless it is a directory, is where the way of a path that is followed to its end
leads. -/
theorem Walks.leads (h : Walks disk aim links start way found) (haim : aim ≠ .change)
    (hdir : found.there? ≠ some .dir) : disk.Goes (start, way) (found.place, []) := by
  obtain ⟨hthere, hlink, here, name, hplace, hgoes⟩ := h.endsAt hdir
  have hnone : disk.linkAt found.place = none := by
    rw [linkAt_eq_none_iff, hthere]
    exact fun target htarget => haim (hlink target htarget)
  rw [hplace] at hnone ⊢
  exact hgoes.tail (advance?_of_no_link hnone [])

/-- From a directory such a step leads to a directory. -/
theorem dir_of_next (hwf : disk.WellFormed) {step : Step} {next : Place}
    (hstep : step.next? start = some next) (hstart : disk.get? start = some .dir) :
    disk.get? next = some .dir := by
  cases step with
  | named name => cases hstep
  | root =>
      cases hstep
      rfl
  | here | slash =>
      cases hstep
      exact hstart
  | up =>
      cases hstep
      exact hwf.dropLast hstart

/-- Wherever the way comes to with steps left, there is a directory. -/
theorem Walks.dir_of_goes (hwf : disk.WellFormed) (h : Walks disk aim links start way found)
    (haim : aim ≠ .change) (hstart : disk.get? start = some .dir) {b : Spot}
    (hgoes : disk.Goes (start, way) b) (hrest : b.2 ≠ []) : disk.get? b.1 = some .dir := by
  induction h with
  | done =>
      rw [hgoes.eq_of_done] at hrest
      exact absurd rfl hrest
  | next hstep _ ih =>
      rcases hgoes.of_advances (advance?_of_next hstep _) with rfl | hgoes
      · exact hstart
      · exact ih (dir_of_next hwf hstep hstart) hgoes
  | @dir _ start name _ _ _ _ hdir _ ih =>
      have hnone : disk.linkAt (start ++ [name]) = none := linkAt_eq_none_iff.mpr (by simp [hdir])
      rcases hgoes.of_advances (advance?_of_no_link hnone _) with rfl | hgoes
      · exact hstart
      · exact ih hdir hgoes
  | link _ _ hlink _ _ ih =>
      have hsome := linkAt_eq_some_iff.mpr hlink
      rcases hgoes.of_advances (advance?_of_link hsome _) with rfl | hgoes
      · exact hstart
      · exact ih hstart hgoes
  | @last _ start name _ _ hthere _ hlink =>
      have hnone : disk.linkAt (start ++ [name]) = none := by
        rw [linkAt_eq_none_iff, hthere]
        exact fun target htarget => haim (hlink target htarget)
      rcases hgoes.of_advances (advance?_of_no_link hnone _) with rfl | hgoes
      · exact hstart
      · rw [hgoes.eq_of_done] at hrest
        exact absurd rfl hrest

/-! ## Walks on another disk -/

/-- No link is at a dead end. -/
theorem DeadEnd.linkAt_eq {place : Place} (h : disk.DeadEnd place) : disk.linkAt place = none := by
  rw [linkAt_eq_none_iff]
  intro target htarget
  obtain ⟨bytes, hbytes⟩ := h _ htarget
  cases hbytes

/-- A walk that follows links ends there, unless it ends in a directory. -/
theorem Walks.deadEnd (h : Walks disk aim links start way found) (haim : aim ≠ .change)
    (hdir : found.there? ≠ some .dir) : disk.DeadEnd found.place := by
  obtain ⟨hthere, hlink, -⟩ := h.endsAt hdir
  intro entry hentry
  rw [hthere] at hentry
  cases entry with
  | file bytes => exact ⟨bytes, rfl⟩
  | dir => exact absurd hentry hdir
  | link target => exact absurd (hlink target hentry) haim

/-- What stands at a place after a file was written where a path leads. -/
theorem Walks.get?_fill (hwf : disk.WellFormed) (h : Walks disk aim links start way found)
    (hdir : found.there? ≠ some .dir) (bytes : ByteArray) (place : Place) :
    (disk.fill found.place bytes).get? place
      = if place ∈ disk.names found.place then some (.file bytes) else disk.get? place := by
  apply Disk.get?_fill hwf
  obtain ⟨-, -, here, name, hplace, -⟩ := h.endsAt hdir
  rw [hplace]
  simp

/-- All names of the file that a walk leads to are dead ends. -/
theorem Walks.deadEnds (hwf : disk.WellFormed) (h : Walks disk aim links start way found)
    (haim : aim ≠ .change) (hdir : found.there? ≠ some .dir) :
    ∀ place ∈ disk.names found.place, disk.DeadEnd place :=
  fun _ hmem => hwf.deadEnd_of_mem_names (h.deadEnd haim hdir) hmem

/-- A file that was written took the place of no link. -/
theorem Walks.sameLinks_fill (hwf : disk.WellFormed) (h : Walks disk aim links start way found)
    (haim : aim ≠ .change) (hdir : found.there? ≠ some .dir) (bytes : ByteArray) :
    SameLinks disk (disk.fill found.place bytes) where
  cwd := by simp
  number? := by simp
  linkAt := by
    intro place
    by_cases hplace : place ∈ disk.names found.place
    · rw [(h.deadEnds hwf haim hdir place hplace).linkAt_eq, linkAt, h.get?_fill hwf hdir,
        if_pos hplace]
    · rw [linkAt, linkAt, h.get?_fill hwf hdir, if_neg hplace]

/-- What is neither missing nor a file is no dead end. -/
theorem not_mem_of_deadEnd {except : List Place} (hends : ∀ place ∈ except, disk.DeadEnd place)
    {place : Place} {entry : Entry} (hthere : disk.get? place = some entry)
    (hfile : ∀ bytes, entry ≠ .file bytes) : place ∉ except := by
  intro hmem
  obtain ⟨bytes, hbytes⟩ := hends place hmem entry hthere
  exact hfile bytes hbytes

/-- What the way looks at and is there is there on the other disk too, except at the given
places. -/
def Keeps (disk disk' : Disk) (except : List Place) (a : Spot) : Prop :=
  ∀ place entry, disk.Looks a place → place ∉ except → disk.get? place = some entry →
    disk'.get? place = some entry

/-- What a way keeps is kept by its later part. -/
theorem Keeps.of_goes {except : List Place} {a b : Spot} (h : Keeps disk disk' except a)
    (hgoes : disk.Goes a b) : Keeps disk disk' except b :=
  fun place entry hlooks => h place entry (hlooks.of_goes hgoes)

/-- A walk looks at its first name. -/
theorem looks_first (disk : Disk) (start : Place) (name : String) (rest : List Step) :
    disk.Looks (start, .named name :: rest) (start ++ [name]) :=
  ⟨start, name, rest, rfl, .refl⟩

/-- A walk to a directory. -/
theorem Comes.keep {except : List Place} (h : Comes disk links start way left home)
    (hends : ∀ place ∈ except, disk.DeadEnd place)
    (hkeeps : Keeps disk disk' except (start, way)) : Comes disk' links start way left home := by
  induction h with
  | done => exact .done
  | next hstep _ ih => exact .next hstep (ih (hkeeps.of_goes (goes_of_next hstep _)))
  | dir hsize hdir _ ih =>
      have hother := not_mem_of_deadEnd hends hdir (by simp)
      exact .dir hsize (hkeeps _ _ (looks_first ..) hother hdir)
        (ih (hkeeps.of_goes (goes_of_dir hdir _)))
  | link hsize hlink _ ih =>
      have hother := not_mem_of_deadEnd hends hlink (by simp)
      exact .link hsize (hkeeps _ _ (looks_first ..) hother hlink)
        (ih (hkeeps.of_goes (goes_of_link hlink _)))

/-- A walk to something that is there. -/
theorem Walks.keep {except : List Place} (h : Walks disk aim links start way found)
    (hfound : found.there? ≠ none) (hends : ∀ place ∈ except, disk.DeadEnd place)
    (hplace : found.place ∉ except) (hkeeps : Keeps disk disk' except (start, way)) :
    Walks disk' aim links start way found := by
  induction h with
  | done => exact .done
  | next hstep _ ih =>
      exact .next hstep (ih hfound hplace (hkeeps.of_goes (goes_of_next hstep _)))
  | dir hsize hopen hdir _ ih =>
      have hother := not_mem_of_deadEnd hends hdir (by simp)
      exact .dir hsize hopen (hkeeps _ _ (looks_first ..) hother hdir)
        (ih hfound hplace (hkeeps.of_goes (goes_of_dir hdir _)))
  | link hsize hopen hlink hfollow _ ih =>
      have hother := not_mem_of_deadEnd hends hlink (by simp)
      exact .link hsize hopen (hkeeps _ _ (looks_first ..) hother hlink) hfollow
        (ih hfound hplace (hkeeps.of_goes (goes_of_link hlink _)))
  | @last _ _ _ entry hsize hthere hdir hlink =>
      rw [Found.place_ofEntry] at hplace
      obtain ⟨there, rfl⟩ : ∃ there, entry = some there := by
        rw [Found.there?_ofEntry] at hfound
        exact Option.ne_none_iff_exists'.mp hfound
      exact .last hsize (hkeeps _ _ (looks_first ..) hplace hthere) hdir hlink

/-- Where a file could be written, and was, it is found. -/
theorem Walks.written (hwf : disk.WellFormed) (h : Walks disk .write links start way found)
    (hdir : found.there? ≠ some .dir) {bytes : ByteArray}
    (hfile : disk'.get? found.place = some (.file bytes))
    (hkeeps : Keeps disk disk' (disk.names found.place) (start, way)) :
    Walks disk' .use links start way (.taken found.place (.file bytes)) := by
  have hends := h.deadEnds hwf (by simp) hdir
  induction h with
  | done => exact absurd rfl hdir
  | next hstep _ ih =>
      exact .next hstep (ih hdir hfile (hkeeps.of_goes (goes_of_next hstep _)) hends)
  | dir hsize _ hstep _ ih =>
      have hother := not_mem_of_deadEnd hends hstep (by simp)
      exact .dir hsize rfl (hkeeps _ _ (looks_first ..) hother hstep)
        (ih hdir hfile (hkeeps.of_goes (goes_of_dir hstep _)) hends)
  | link hsize _ hstep _ _ ih =>
      have hother := not_mem_of_deadEnd hends hstep (by simp)
      exact .link hsize rfl (hkeeps _ _ (looks_first ..) hother hstep) (by simp)
        (ih hdir hfile (hkeeps.of_goes (goes_of_link hstep _)) hends)
  | last hsize _ _ _ =>
      rw [Found.place_ofEntry] at hfile ⊢
      exact .last hsize hfile (by simp) (by simp)

end

end CodeIndex.Disk
