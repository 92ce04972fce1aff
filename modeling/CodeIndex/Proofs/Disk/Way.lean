import Mathlib.Logic.Relation
import CodeIndex.Proofs.Disk.Save

/-!
# The way of a path

Where a path leads when only its links count: a name leads on whether or not there is something,
and a link is replaced by the steps of its target.  Each spot on the way has at most one next one,
so a way that ends has one end, and two ways that meet go on together.  Paths lead to different
files if no one of them comes to the end of another, none goes on behind its own end, and no two
ends are names of one file.

* `Goes.past` : a way that meets the last name of a path comes to where that path leads.
* `Goes.congr` : a way depends on the links that it looks at only.
* `Apart.not_looks` : paths to different files do not look at each other's last names.
* `SameLinks` : where the links are the same, so are the ways, and the files at their ends.
* `mem_trail`, `filesApart_of_trail` : the spots of a way that ends are found by following it, so
  whether paths lead to different files can be computed.
-/

namespace CodeIndex.Disk

/-- A place and the steps left from there. -/
abbrev Spot := Place × List Step

/-- The target of the link at a place. -/
def linkAt (disk : Disk) (place : Place) : Option String :=
  match disk.get? place with
  | some (.link target) => some target
  | _ => none

/-- The link at a place is the entry there. -/
theorem linkAt_eq_some_iff {disk : Disk} {place : Place} {target : String} :
    disk.linkAt place = some target ↔ disk.get? place = some (.link target) := by
  unfold linkAt
  split
  · rename_i other h
    rw [h]
    simp
  · rename_i h
    constructor
    · intro hnone
      cases hnone
    · intro hlink
      exact absurd hlink (h target)

/-- There is no link exactly if the entry is none. -/
theorem linkAt_eq_none_iff {disk : Disk} {place : Place} :
    disk.linkAt place = none ↔ ∀ target, disk.get? place ≠ some (.link target) := by
  rw [Option.eq_none_iff_forall_ne_some]
  exact forall_congr' fun target => not_congr linkAt_eq_some_iff

/-- Where a step other than a name leads. -/
def Step.next? (start : Place) : Step → Option Place
  | .root => some []
  | .here => some start
  | .slash => some start
  | .up => some start.dropLast
  | .named _ => none

/-- The next spot on a way. -/
def advance? (disk : Disk) : Spot → Option Spot
  | (_, []) => none
  | (_, .root :: rest) => some ([], rest)
  | (start, .here :: rest) => some (start, rest)
  | (start, .slash :: rest) => some (start, rest)
  | (start, .up :: rest) => some (start.dropLast, rest)
  | (start, .named name :: rest) =>
    match disk.linkAt (start ++ [name]) with
    | some target => some (start, steps target ++ rest)
    | none => some (start ++ [name], rest)

/-- One spot is the next after another. -/
def Advances (disk : Disk) (a b : Spot) : Prop := disk.advance? a = some b

/-- A way goes from one spot to another. -/
abbrev Goes (disk : Disk) : Spot → Spot → Prop := Relation.ReflTransGen disk.Advances

/-- A way looks at a place: it comes to a name that is there. -/
def Looks (disk : Disk) (a : Spot) (place : Place) : Prop :=
  ∃ start name rest, place = start ++ [name] ∧ disk.Goes a (start, .named name :: rest)

section

variable {disk disk' : Disk} {a b c : Spot} {place start : Place} {name : String}

/-- A step that needs no look at the disk advances. -/
theorem advance?_of_next {step : Step} {next : Place} (h : step.next? start = some next)
    (rest : List Step) : disk.advance? (start, step :: rest) = some (next, rest) := by
  cases step with
  | named name => cases h
  | root | here | slash | up =>
      cases h
      rfl

/-- A link advances to its target with the rest behind it. -/
theorem advance?_of_link {target : String} (h : disk.linkAt (start ++ [name]) = some target)
    (rest : List Step) :
    disk.advance? (start, .named name :: rest) = some (start, steps target ++ rest) := by
  simp [advance?, h]

/-- A link at the end advances to its target. -/
theorem advance?_of_last_link {target : String} (h : disk.linkAt (start ++ [name]) = some target) :
    disk.advance? (start, [.named name]) = some (start, steps target) := by
  rw [advance?_of_link h, List.append_nil]

/-- What is no link advances to its place. -/
theorem advance?_of_no_link (h : disk.linkAt (start ++ [name]) = none) (rest : List Step) :
    disk.advance? (start, .named name :: rest) = some (start ++ [name], rest) := by
  simp [advance?, h]

/-- What is left of the way does not matter to one step. -/
theorem Advances.append (h : disk.Advances a b) (rest : List Step) :
    disk.Advances (a.1, a.2 ++ rest) (b.1, b.2 ++ rest) := by
  obtain ⟨start, way⟩ := a
  cases way with
  | nil => cases h
  | cons step way =>
      cases step with
      | named name =>
          cases hlink : disk.linkAt (start ++ [name]) with
          | some target =>
              rw [Advances, advance?_of_link hlink, Option.some.injEq] at h
              subst h
              have hnext := advance?_of_link hlink (way ++ rest)
              rwa [← List.append_assoc] at hnext
          | none =>
              rw [Advances, advance?_of_no_link hlink, Option.some.injEq] at h
              subst h
              exact advance?_of_no_link hlink (way ++ rest)
      | root | here | slash | up =>
          cases h
          rfl

/-- Steps left behind a way are still left at its end. -/
theorem Goes.append (h : disk.Goes a b) (rest : List Step) :
    disk.Goes (a.1, a.2 ++ rest) (b.1, b.2 ++ rest) := by
  induction h with
  | refl => exact .refl
  | tail _ hstep ih => exact ih.tail (hstep.append rest)

/-- A way ends where no step is left. -/
theorem Goes.eq_of_done (h : disk.Goes (place, []) b) : b = (place, []) := by
  induction h with
  | refl => rfl
  | tail _ hstep ih =>
      rw [ih] at hstep
      cases hstep

/-- A way that ends comes to its end from each of its spots. -/
theorem Goes.rest (hend : disk.Goes a (place, [])) (h : disk.Goes a b) :
    disk.Goes b (place, []) := by
  have hunique : Relator.RightUnique disk.Advances := by
    intro s t t' ht ht'
    exact Option.some.inj (ht.symm.trans ht')
  rcases Relation.ReflTransGen.total_of_right_unique hunique hend h with hback | hon
  · rw [Goes.eq_of_done hback]
  · exact hon

/-- It has no other end. -/
theorem Goes.end_unique {place' : Place} (h : disk.Goes a (place, []))
    (h' : disk.Goes a (place', [])) : place' = place := by
  have hsame := (h.rest h').eq_of_done
  exact (congrArg Prod.fst hsame).symm

/-- Behind its first spot it goes on from the next one. -/
theorem Goes.of_advances (hstep : disk.Advances a c) (h : disk.Goes a b) :
    b = a ∨ disk.Goes c b := by
  rcases Relation.ReflTransGen.cases_head h with rfl | ⟨next, hnext, hrest⟩
  · exact .inl rfl
  · obtain rfl := Option.some.inj (hstep.symm.trans hnext)
    exact .inr hrest

/-- It does not come back to a spot. -/
theorem Goes.not_back (hend : disk.Goes a (place, [])) (hstep : disk.Advances a b) :
    ¬disk.Goes b a := by
  induction hend using Relation.ReflTransGen.head_induction_on generalizing b with
  | refl => cases hstep
  | head hfirst _ ih =>
      obtain rfl := Option.some.inj (hstep.symm.trans hfirst)
      intro hback
      rcases Relation.ReflTransGen.cases_head hback with heq | ⟨next, hnext, hrest⟩
      · subst heq
        exact ih hfirst .refl
      · exact ih hnext (hrest.tail hstep)

/-- A way that meets the last name of a path comes to where that path leads. -/
theorem Goes.past (hlast : disk.Goes a (start, [.named name])) (hend : disk.Goes a (place, []))
    {rest : List Step} (h : disk.Goes b (start, .named name :: rest)) :
    disk.Goes b (place, rest) :=
  h.trans ((hend.rest hlast).append rest)

/-- The spots of a way through a list of steps and then another. -/
theorem Goes.split {way rest : List Step} (h : disk.Goes (start, way ++ rest) b) :
    (∃ left, b.2 = left ++ rest ∧ disk.Goes (start, way) (b.1, left)) ∨
      ∃ place, disk.Goes (start, way) (place, []) ∧ disk.Goes (place, rest) b := by
  induction h with
  | refl => exact .inl ⟨way, rfl, .refl⟩
  | @tail b c _ hstep ih =>
      rcases ih with ⟨left, hleft, hgoes⟩ | ⟨place, hgoes, hrest⟩
      · obtain ⟨here, way'⟩ := b
        obtain rfl : way' = left ++ rest := hleft
        cases left with
        | nil => exact .inr ⟨here, hgoes, .single hstep⟩
        | cons step left =>
            have hnext : ∃ next, disk.Advances (here, step :: left) next := by
              cases step with
              | named name =>
                  cases hlink : disk.linkAt (here ++ [name]) with
                  | some target => exact ⟨_, advance?_of_link hlink left⟩
                  | none => exact ⟨_, advance?_of_no_link hlink left⟩
              | root | here | slash | up => exact ⟨_, rfl⟩
            obtain ⟨next, hnext⟩ := hnext
            obtain rfl := Option.some.inj ((hnext.append rest).symm.trans hstep)
            exact .inl ⟨next.2, rfl, hgoes.tail hnext⟩
      · exact .inr ⟨place, hgoes, hrest.tail hstep⟩

/-- A walk looks at what its later part looks at. -/
theorem Looks.of_goes (h : disk.Goes a b) (hlooks : disk.Looks b place) : disk.Looks a place := by
  obtain ⟨here, name, left, rfl, hgoes⟩ := hlooks
  exact ⟨here, name, left, rfl, h.trans hgoes⟩

/-- A walk looks at what its first part looks at. -/
theorem Looks.append {way : List Step} (h : disk.Looks (start, way) place) (rest : List Step) :
    disk.Looks (start, way ++ rest) place := by
  obtain ⟨here, name, left, rfl, hgoes⟩ := h
  exact ⟨here, name, left ++ rest, rfl, hgoes.append rest⟩

theorem Advances.congr
    (hlinks : ∀ place, disk.Looks a place → disk'.linkAt place = disk.linkAt place)
    (h : disk.Goes a b) : disk'.Advances b c ↔ disk.Advances b c := by
  obtain ⟨here, way⟩ := b
  cases way with
  | nil => exact Iff.rfl
  | cons step way =>
      cases step with
      | named name =>
          have hlink := hlinks (here ++ [name]) ⟨here, name, way, rfl, h⟩
          rw [Advances, Advances, advance?, advance?, hlink]
      | root | here | slash | up => exact Iff.rfl

/-- A way depends on the links that it looks at only. -/
theorem Goes.congr (hlinks : ∀ place, disk.Looks a place → disk'.linkAt place = disk.linkAt place) :
    disk'.Goes a b ↔ disk.Goes a b := by
  constructor
  · intro h
    induction h with
    | refl => exact .refl
    | tail _ hstep ih => exact ih.tail ((Advances.congr hlinks ih).mp hstep)
  · intro h
    induction h with
    | refl => exact .refl
    | tail hgoes hstep ih => exact ih.tail ((Advances.congr hlinks hgoes).mpr hstep)

/-- A way that starts at a place behind no link keeps to such places. -/
theorem Goes.noLink (h : disk.Goes a b) (hstart : disk.NoLink a.1) : disk.NoLink b.1 := by
  induction h with
  | refl => exact hstart
  | @tail b c _ hstep ih =>
      obtain ⟨here, way⟩ := b
      cases way with
      | nil => cases hstep
      | cons step way =>
          cases step with
          | named name =>
              cases hlink : disk.linkAt (here ++ [name]) with
              | some target =>
                  rw [Advances, advance?_of_link hlink, Option.some.injEq] at hstep
                  subst hstep
                  exact ih
              | none =>
                  rw [Advances, advance?_of_no_link hlink, Option.some.injEq] at hstep
                  subst hstep
                  intro front hfront
                  rcases List.prefix_concat_iff.mp hfront with rfl | hfront
                  · exact linkAt_eq_none_iff.mp hlink
                  · exact ih front hfront
          | root =>
              cases hstep
              intro front hfront target hthere
              rw [List.prefix_nil.mp hfront] at hthere
              cases hthere
          | here =>
              cases hstep
              exact ih
          | slash =>
              cases hstep
              exact ih
          | up =>
              cases hstep
              exact fun front hfront => ih front (hfront.trans (List.dropLast_prefix here))

end

/-! ## Paths to different files -/

/-- The spot at which a path starts. -/
def startOf (disk : Disk) (path : String) : Spot := (disk.cwd, steps path)

/-- The path leads to the place. -/
def Leads (disk : Disk) (path : String) (place : Place) : Prop :=
  disk.Goes (disk.startOf path) (place, [])

/-- The path comes to the place, as to its end or to a directory on its way. -/
def Visits (disk : Disk) (path : String) (place : Place) : Prop :=
  ∃ rest, disk.Goes (disk.startOf path) (place, rest)

/-- The path leads to some place, and does not go through it before. -/
structure IsFile (disk : Disk) (path : String) : Prop where
  leads : ∃ place, disk.Leads path place
  ends : ∀ place rest, disk.Leads path place → disk.Goes (disk.startOf path) (place, rest) →
    rest = []

/-- The two paths do not lead to one file, at one place or under two names. -/
def Differ (disk : Disk) (path other : String) : Prop :=
  ∀ place place', disk.Leads path place → disk.Leads other place' → ¬disk.SameFile place place'

/-- Neither path comes to where the other leads, and they lead to different files. -/
structure Apart (disk : Disk) (path other : String) : Prop where
  left : ∀ place, disk.Leads path place → ¬disk.Visits other place
  right : ∀ place, disk.Leads other place → ¬disk.Visits path place
  differ : disk.Differ path other

/-- The paths lead to pairwise different files, none of which is a directory on the way to
another.  They need not be there yet, and there may be links on the way to them. -/
structure FilesApart (disk : Disk) (paths : List String) : Prop where
  files : ∀ path ∈ paths, disk.IsFile path
  apart : paths.Pairwise disk.Apart

/-- The place that the last name on the way of a path is looked up at. -/
def EndsAt (disk : Disk) (path : String) (place : Place) : Prop :=
  ∃ start name, place = start ++ [name] ∧ disk.Goes (disk.startOf path) (start, [.named name])

section

variable {disk disk' : Disk} {path other : String} {place : Place}

/-- To differ does not depend on the order of the two paths. -/
theorem Differ.symm (h : disk.Differ path other) : disk.Differ other path :=
  fun place place' hplace hplace' hsame => h place' place hplace' hplace (sameFile_symm hsame)

/-- To be apart does not depend on the order of the two paths. -/
theorem Apart.symm (h : disk.Apart path other) : disk.Apart other path :=
  ⟨h.right, h.left, h.differ.symm⟩

/-- A path to another file does not look at where a path ends. -/
theorem Apart.not_looks (h : disk.Apart path other) (hfile : disk.IsFile path)
    (hends : disk.EndsAt path place) : ¬disk.Looks (disk.startOf other) place := by
  rintro ⟨start, name, rest, rfl, hother⟩
  obtain ⟨start', name', heq, hlast⟩ := hends
  obtain ⟨rfl, hname⟩ := List.append_inj' heq rfl
  cases hname
  obtain ⟨target, hleads⟩ := hfile.leads
  exact h.left target hleads ⟨rest, hlast.past hleads hother⟩

/-- The two disks have the same links, files with the same names, and the same working
directory. -/
structure SameLinks (disk disk' : Disk) : Prop where
  cwd : disk'.cwd = disk.cwd
  number? : ∀ place, disk'.number? place = disk.number? place
  linkAt : ∀ place, disk'.linkAt place = disk.linkAt place

namespace SameLinks

variable {disk'' : Disk} {a b : Spot}

theorem trans (h : SameLinks disk disk') (h' : SameLinks disk' disk'') : SameLinks disk disk'' where
  cwd := h'.cwd.trans h.cwd
  number? := fun place => (h'.number? place).trans (h.number? place)
  linkAt := fun place => (h'.linkAt place).trans (h.linkAt place)

/-- Walks go the same way. -/
theorem goes_iff (h : SameLinks disk disk') : disk'.Goes a b ↔ disk.Goes a b :=
  Goes.congr fun place _ => h.linkAt place

/-- Paths start at the same place. -/
theorem startOf_eq (h : SameLinks disk disk') (path : String) :
    disk'.startOf path = disk.startOf path := by
  rw [startOf, startOf, h.cwd]

/-- Paths lead to the same places. -/
theorem leads_iff (h : SameLinks disk disk') : disk'.Leads path place ↔ disk.Leads path place := by
  rw [Leads, Leads, h.startOf_eq, h.goes_iff]

/-- Paths visit the same places. -/
theorem visits_iff (h : SameLinks disk disk') :
    disk'.Visits path place ↔ disk.Visits path place := by
  simp only [Visits, h.startOf_eq, h.goes_iff]

theorem differ_iff (h : SameLinks disk disk') {other : String} :
    disk'.Differ path other ↔ disk.Differ path other := by
  have hsame : ∀ place place', disk'.SameFile place place' ↔ disk.SameFile place place' :=
    fun place place' => sameFile_congr (h.number? place) (h.number? place')
  simp only [Differ, h.leads_iff, hsame]

/-- Walks look at the same places. -/
theorem looks_iff (h : SameLinks disk disk') : disk'.Looks a place ↔ disk.Looks a place := by
  simp only [Looks, h.goes_iff]

/-- The same paths lead to different files. -/
theorem filesApart {paths : List String} (h : SameLinks disk disk')
    (hfiles : disk.FilesApart paths) : disk'.FilesApart paths := by
  constructor
  · intro path hpath
    obtain ⟨⟨place, hplace⟩, hends⟩ := hfiles.files path hpath
    refine ⟨⟨place, h.leads_iff.mpr hplace⟩, ?_⟩
    simp only [h.leads_iff, h.startOf_eq, h.goes_iff]
    exact hends
  · refine hfiles.apart.imp ?_
    rintro path other ⟨hleft, hright, hdiffer⟩
    refine ⟨?_, ?_, h.differ_iff.mpr hdiffer⟩
    · simpa only [h.leads_iff, h.visits_iff] using hleft
    · simpa only [h.leads_iff, h.visits_iff] using hright

end SameLinks

/-- To be apart does not depend on the order of the paths. -/
theorem FilesApart.perm {paths paths' : List String} (h : disk.FilesApart paths)
    (hperm : paths.Perm paths') : disk.FilesApart paths' where
  files := fun path hpath => h.files path (hperm.mem_iff.mpr hpath)
  apart := (hperm.pairwise_iff Apart.symm).mp h.apart

end

/-! ## Following a way -/

/-- The spots of a way, as far as the fuel lasts. -/
def trail (disk : Disk) : Nat → Spot → List Spot
  | 0, spot => [spot]
  | fuel + 1, spot =>
    match disk.advance? spot with
    | some next => spot :: trail disk fuel next
    | none => [spot]

/-- The spots of a way that ends are found by following it. -/
theorem mem_trail {disk : Disk} {fuel : Nat} {a b : Spot} {place : Place}
    (hend : (place, []) ∈ disk.trail fuel a) : disk.Goes a b ↔ b ∈ disk.trail fuel a := by
  induction fuel generalizing a with
  | zero =>
      obtain rfl := List.mem_singleton.mp hend
      rw [trail, List.mem_singleton]
      exact ⟨Goes.eq_of_done, fun h => h ▸ .refl⟩
  | succ fuel ih =>
      cases hnext : disk.advance? a with
      | none =>
          simp only [trail, hnext, List.mem_singleton]
          constructor
          · intro h
            rcases Relation.ReflTransGen.cases_head h with rfl | ⟨next, hstep, -⟩
            · rfl
            · rw [Advances, hnext] at hstep
              cases hstep
          · rintro rfl
            exact .refl
      | some next =>
          simp only [trail, hnext, List.mem_cons] at hend ⊢
          have hmore : (place, []) ∈ disk.trail fuel next := by
            rcases hend with rfl | hmore
            · cases hnext
            · exact hmore
          constructor
          · intro h
            rcases Goes.of_advances hnext h with rfl | hrest
            · exact .inl rfl
            · exact .inr ((ih hmore).mp hrest)
          · rintro (rfl | hrest)
            · exact .refl
            · exact .head hnext ((ih hmore).mpr hrest)

/-- Whether paths lead to different files is seen from their trails. -/
theorem filesApart_of_trail {disk : Disk} (fuel : Nat) {paths : List String}
    (hends : ∀ path ∈ paths, ∃ a ∈ disk.trail fuel (disk.startOf path), a.2 = [])
    (hfiles : ∀ path ∈ paths, ∀ a ∈ disk.trail fuel (disk.startOf path), a.2 = [] →
      ∀ b ∈ disk.trail fuel (disk.startOf path), b.1 = a.1 → b.2 = [])
    (hapart : paths.Pairwise fun path other =>
      (∀ a ∈ disk.trail fuel (disk.startOf path), a.2 = [] →
        ∀ b ∈ disk.trail fuel (disk.startOf other), b.1 ≠ a.1) ∧
      (∀ a ∈ disk.trail fuel (disk.startOf other), a.2 = [] →
        ∀ b ∈ disk.trail fuel (disk.startOf path), b.1 ≠ a.1) ∧
      ∀ a ∈ disk.trail fuel (disk.startOf path), a.2 = [] →
        ∀ b ∈ disk.trail fuel (disk.startOf other), b.2 = [] → disk.sameFile a.1 b.1 = false) :
    disk.FilesApart paths := by
  have hgoes : ∀ path ∈ paths, ∀ b, disk.Goes (disk.startOf path) b ↔
      b ∈ disk.trail fuel (disk.startOf path) := by
    intro path hpath b
    obtain ⟨⟨place, rest⟩, hmem, rfl⟩ := hends path hpath
    exact mem_trail hmem
  constructor
  · intro path hpath
    constructor
    · obtain ⟨⟨place, rest⟩, hmem, rfl⟩ := hends path hpath
      exact ⟨place, (hgoes path hpath _).mpr hmem⟩
    · intro place rest hleads hrest
      exact hfiles path hpath _ ((hgoes path hpath _).mp hleads) rfl _
        ((hgoes path hpath _).mp hrest) rfl
  · refine hapart.imp_of_mem ?_
    rintro path other hpath hother ⟨hleft, hright, hdiffer⟩
    refine ⟨?_, ?_, ?_⟩
    · rintro place hleads ⟨rest, hvisits⟩
      exact hleft _ ((hgoes path hpath _).mp hleads) rfl _ ((hgoes other hother _).mp hvisits) rfl
    · rintro place hleads ⟨rest, hvisits⟩
      exact hright _ ((hgoes other hother _).mp hleads) rfl _ ((hgoes path hpath _).mp hvisits) rfl
    · intro place place' hleads hleads'
      rw [SameFile, hdiffer _ ((hgoes path hpath _).mp hleads) rfl _
        ((hgoes other hother _).mp hleads') rfl]
      simp

end CodeIndex.Disk
