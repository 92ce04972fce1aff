import CodeIndex.Proofs.Disk.Swap
import CodeIndex.Proofs.Disk.Text

/-!
# What a save keeps

A save that succeeds makes its text readable at its path, and leaves every text at other paths as
it was, as long as all of these paths and the temporary one lead to different files.  Afterwards
they still do, so that the next save can be judged in the same way.

* `Swap.read` : the bytes are read at the path.
* `Swap.read_other` : what is read at other paths is read there as before.
* `Swap.filesApart` : the paths lead to different files afterwards.
* `save_kept` : all of this of a save.
-/

namespace CodeIndex.Disk

namespace Swap

variable {before after : Disk} {path : String} {bytes : ByteArray} {others : List String}

/-- Away from both names and the written file nothing changes. -/
theorem get?_of_ne (swap : Swap before after path bytes) {place : Place}
    (htarget : place ≠ swap.target) (horigin : place ≠ swap.origin)
    (hfound : place ∉ before.names swap.found.place) : after.get? place = before.get? place := by
  rw [swap.get?, if_neg htarget, if_neg horigin, swap.get?_fill, if_neg hfound]

/-- The temporary file itself was moved. -/
theorem get?_target_of_file (swap : Swap before after path bytes)
    (hfound : swap.found.place = swap.origin) :
    after.get? swap.target = some (.file bytes) := by
  rw [swap.get?, if_pos rfl, swap.get?_fill, if_pos]
  exact mem_names.mpr (hfound ▸ sameFile_refl before _)

/-- A link to where the bytes are was moved. -/
theorem get?_target_of_link (swap : Swap before after path bytes) {link : String}
    (hlink : before.get? swap.origin = some (.link link)) :
    after.get? swap.target = some (.link link) := by
  rw [swap.get?, if_pos rfl, swap.get?_fill, if_neg, hlink]
  intro hmem
  obtain ⟨bytes, hbytes⟩ := swap.deadEnds _ hmem _ hlink
  cases hbytes

/-- A file that the temporary path leads to elsewhere holds the written bytes. -/
theorem get?_found (swap : Swap before after path bytes) (h : swap.Aside)
    (hfound : swap.found.place ≠ swap.origin) :
    after.get? swap.found.place = some (.file bytes) := by
  rw [swap.get?, if_neg (h.found_ne_target), if_neg hfound, swap.get?_fill,
    if_pos (mem_names.mpr (sameFile_refl before _))]

/-- A link at the temporary name is a link at the target afterwards. -/
theorem linkAt_target (swap : Swap before after path bytes) :
    after.linkAt swap.target = before.linkAt swap.origin := by
  rcases swap.cases_found with ⟨hfound, hlink⟩ | ⟨link, fewer, -, hlink, -, -⟩
  · rw [hlink, linkAt, swap.get?_target_of_file hfound]
  · rw [linkAt, linkAt, swap.get?_target_of_link hlink, hlink]

/-- Away from both names the links are the same. -/
theorem linkAt_of_ne (swap : Swap before after path bytes) {place : Place}
    (htarget : place ≠ swap.target) (horigin : place ≠ swap.origin) :
    after.linkAt place = before.linkAt place := by
  by_cases hfound : place ∈ before.names swap.found.place
  · rw [(swap.deadEnds place hfound).linkAt_eq, linkAt, swap.get?, if_neg htarget, if_neg horigin,
      swap.get?_fill, if_pos hfound]
  · rw [linkAt, linkAt, swap.get?_of_ne htarget horigin hfound]

/-- Other places are names of the same files as before. -/
theorem number?_of_ne (swap : Swap before after path bytes) {place : Place}
    (htarget : place ≠ swap.target) (horigin : place ≠ swap.origin) :
    after.number? place = before.number? place := by
  rw [swap.number?, if_neg htarget, if_neg horigin]

/-- What is a name of the moved file afterwards was one of the temporary file. -/
theorem sameFile_origin (swap : Swap before after path bytes) {place : Place}
    (htarget : place ≠ swap.target) (horigin : place ≠ swap.origin)
    (hsame : after.SameFile swap.target place) : before.SameFile swap.origin place := by
  rcases sameFile_iff.mp hsame with heq | ⟨n, hn, hplace⟩
  · exact absurd heq.symm htarget
  · rw [swap.number?, if_pos rfl] at hn
    rw [swap.number?_of_ne htarget horigin] at hplace
    exact sameFile_iff.mpr (.inr ⟨n, hn, hplace⟩)

/-! ## Ways that do not look at the two names -/

/-- The way looks at neither of the two names. -/
def Clear (swap : Swap before after path bytes) (a : Spot) : Prop :=
  ∀ place, before.Looks a place → place ≠ swap.target ∧ place ≠ swap.origin

/-- A way clear of both names goes where it went. -/
theorem goes_iff (swap : Swap before after path bytes) {a b : Spot} (hclear : swap.Clear a) :
    after.Goes a b ↔ before.Goes a b :=
  Goes.congr fun place hlooks =>
    swap.linkAt_of_ne (hclear place hlooks).1 (hclear place hlooks).2

/-- A clear way finds what it found, except at the written file. -/
theorem keeps (swap : Swap before after path bytes) {a : Spot} (hclear : swap.Clear a) :
    Keeps before after (before.names swap.found.place) a := by
  intro place entry hlooks hfound hthere
  rw [swap.get?_of_ne (hclear place hlooks).1 (hclear place hlooks).2 hfound, hthere]

/-- The way to the directory of the path looks at neither name. -/
theorem clear_front (swap : Swap before after path bytes) (h : swap.Aside) :
    swap.Clear (before.cwd, swap.front) := by
  intro place hlooks
  constructor
  · rintro rfl
    exact h.front hlooks
  · rintro rfl
    exact swap.not_looks_origin hlooks

/-- The way behind the temporary file looks at neither of them, if it is a link. -/
theorem clear_link (swap : Swap before after path bytes) (h : swap.Aside) {link : String}
    (hlink : before.linkAt swap.origin = some link) : swap.Clear (swap.home, steps link) := by
  have hstep : before.Advances (swap.home, [.named swap.temporary]) (swap.home, steps link) :=
    advance?_of_last_link hlink
  intro place hlooks
  constructor
  · rintro rfl
    exact h.behind (hlooks.of_goes (.single hstep))
  · rintro rfl
    obtain ⟨start, name, rest, heq, hback⟩ := hlooks
    obtain ⟨rfl, hname⟩ := List.append_inj' heq rfl
    cases hname
    -- Looking at its own name again, the way would go on behind its end or in a circle.
    obtain rfl := swap.last_of_origin (swap.goes_temporary.trans (.head hstep hback))
    exact swap.leads_found.not_back hstep hback

/-- The bytes are read at the path. -/
theorem read (swap : Swap before after path bytes) (h : swap.Aside) :
    after.read path = .ok bytes := by
  have hcomes : Comes after linkLimit after.cwd swap.front swap.left swap.home := by
    rw [swap.cwd]
    exact swap.comes.keep swap.deadEnds (swap.keeps (swap.clear_front h))
  rw [read_eq_ok_iff, swap.steps_eq]
  rcases swap.cases_found with ⟨hfound, -⟩ | ⟨link, fewer, hleft, hlink, hfound, hwrites⟩
  · refine ⟨swap.valid, swap.target, hcomes.walks ?_⟩
    exact .last swap.size (swap.get?_target_of_file hfound) (by simp) (by simp)
  · have hthere := swap.get?_target_of_link hlink
    have hwritten := hwrites.written swap.wellFormed swap.noDir (swap.get?_found h hfound)
      (swap.keeps (swap.clear_link h (linkAt_eq_some_iff.mpr hlink)))
    refine ⟨swap.valid, swap.found.place, hcomes.walks ?_⟩
    rw [hleft]
    exact .link swap.size rfl hthere (by simp) (by rwa [List.append_nil])

/-! ## Other paths -/

/-- Every path starts where it started before. -/
theorem startOf_eq (swap : Swap before after path bytes) (other : String) :
    after.startOf other = before.startOf other := by
  rw [startOf, startOf, swap.cwd]

/-- A path to another file does not look at the two names. -/
theorem clear_other (swap : Swap before after path bytes)
    (h : before.FilesApart (path :: temporaryPath path :: others)) {other : String}
    (hother : other ∈ others) : swap.Clear (before.startOf other) := by
  intro place hlooks
  constructor
  · rintro rfl
    exact (h.first_other hother).not_looks h.first swap.target_endsAt hlooks
  · rintro rfl
    exact (h.second_other hother).not_looks h.second swap.origin_endsAt hlooks

/-- What is read at such a path is read there as before. -/
theorem read_other (swap : Swap before after path bytes)
    (h : before.FilesApart (path :: temporaryPath path :: others)) {other : String}
    (hother : other ∈ others) {there : ByteArray} (hread : before.read other = .ok there) :
    after.read other = .ok there := by
  obtain ⟨hvalid, place, hwalks⟩ := read_eq_ok_iff.mp hread
  refine read_eq_ok_iff.mpr ⟨hvalid, place, ?_⟩
  rw [swap.cwd]
  refine hwalks.keep (by simp [Found.there?]) swap.deadEnds ?_
    (swap.keeps (swap.clear_other h hother))
  intro hmem
  have hleads : before.Leads other place := hwalks.leads (by simp) (by simp [Found.there?])
  exact (h.second_other hother).differ _ _ swap.leads hleads (mem_names.mp hmem)

/-- The other paths lead where they led before. -/
theorem leads_other (swap : Swap before after path bytes)
    (h : before.FilesApart (path :: temporaryPath path :: others)) {other : String}
    (hother : other ∈ others) (place : Place) :
    after.Leads other place ↔ before.Leads other place := by
  rw [Leads, Leads, swap.startOf_eq]
  exact swap.goes_iff (swap.clear_other h hother)

/-- The other paths visit what they visited before. -/
theorem visits_other (swap : Swap before after path bytes)
    (h : before.FilesApart (path :: temporaryPath path :: others)) {other : String}
    (hother : other ∈ others) (place : Place) :
    after.Visits other place ↔ before.Visits other place := by
  rw [Visits, Visits, swap.startOf_eq]
  exact exists_congr fun _ => swap.goes_iff (swap.clear_other h hother)

/-! ## The path itself -/

/-- The path comes to its directory as before, and from there to the file, or to where the
temporary one came. -/
theorem goes_path (swap : Swap before after path bytes) (h : swap.Aside) {b : Spot}
    (hgoes : after.Goes (after.startOf path) b) :
    (b.2 ≠ [] ∧ before.Goes (before.startOf path) b) ∨
      (before.linkAt swap.origin = none ∧ b = (swap.target, [])) ∨
      (before.linkAt swap.origin ≠ none ∧
        before.Goes (before.startOf (temporaryPath path)) b) := by
  have hiff := fun b => swap.goes_iff (b := b) (swap.clear_front h)
  rw [swap.startOf_eq, startOf, swap.steps_eq] at hgoes
  rcases Goes.split hgoes with ⟨way, hway, hfront⟩ | ⟨place, hfront, hlast⟩
  · obtain ⟨place, rest⟩ := b
    obtain rfl : rest = way ++ [.named swap.name] := hway
    refine .inl ⟨by simp, ?_⟩
    rw [startOf, swap.steps_eq]
    exact ((hiff _).mp hfront).append [.named swap.name]
  · obtain rfl : place = swap.home := swap.comes.goes.end_unique ((hiff _).mp hfront)
    have htarget := swap.linkAt_target
    cases hlink : before.linkAt swap.origin with
    | none =>
        rw [hlink] at htarget
        rcases Goes.of_advances (advance?_of_no_link htarget []) hlast with rfl | hrest
        · exact .inl ⟨by simp, swap.goes⟩
        · exact .inr (.inl ⟨rfl, Goes.eq_of_done hrest⟩)
    | some link =>
        rw [hlink] at htarget
        rcases Goes.of_advances (advance?_of_last_link htarget) hlast with rfl | hrest
        · exact .inl ⟨by simp, swap.goes⟩
        · have hon := (swap.goes_iff (swap.clear_link h hlink)).mp hrest
          exact .inr (.inr ⟨by simp,
            swap.goes_temporary.trans (.head (advance?_of_last_link hlink) hon)⟩)

/-- It leads to the file, or to where the temporary one led. -/
theorem exists_leads (swap : Swap before after path bytes) (h : swap.Aside) :
    ∃ place, after.Leads path place := by
  have hhome : after.Goes (after.startOf path) (swap.home, [.named swap.name]) := by
    have hfront := (swap.goes_iff (swap.clear_front h)).mpr swap.comes.goes
    rw [swap.startOf_eq, startOf, swap.steps_eq]
    exact hfront.append [.named swap.name]
  have htarget := swap.linkAt_target
  cases hlink : before.linkAt swap.origin with
  | none =>
      rw [hlink] at htarget
      exact ⟨swap.target, hhome.tail (advance?_of_no_link htarget [])⟩
  | some link =>
      rw [hlink] at htarget
      have hrest := swap.leads_found.rest (.single (advance?_of_last_link hlink))
      exact ⟨swap.found.place, (hhome.tail (advance?_of_last_link htarget)).trans
        ((swap.goes_iff (swap.clear_link h hlink)).mpr hrest)⟩

/-- A place that is come to is no link, so a path that ends there leads there. -/
theorem leads_of_visits (swap : Swap before after path bytes) {other : String}
    (hvisits : before.Visits other swap.target) : before.Leads path swap.target := by
  have hstart := swap.wellFormed.noLink_cwd
  obtain ⟨rest, hgoes⟩ := hvisits
  have hlink := linkAt_eq_none_iff.mpr (hgoes.noLink hstart _ (List.prefix_refl _))
  exact swap.goes.tail (advance?_of_no_link hlink [])

/-- So does a path to the temporary file. -/
theorem leads_temporary_of_visits (swap : Swap before after path bytes) {other : String}
    (hvisits : before.Visits other swap.origin) :
    before.Leads (temporaryPath path) swap.origin := by
  have hstart := swap.wellFormed.noLink_cwd
  obtain ⟨rest, hgoes⟩ := hvisits
  have hlink := linkAt_eq_none_iff.mpr (hgoes.noLink hstart _ (List.prefix_refl _))
  exact swap.goes_temporary.tail (advance?_of_no_link hlink [])

/-- A path to another file leads to neither of the two names. -/
theorem ne_of_leads_other (swap : Swap before after path bytes)
    (h : before.FilesApart (path :: temporaryPath path :: others)) {other : String}
    (hother : other ∈ others) {place : Place} (hleads : before.Leads other place) :
    place ≠ swap.target ∧ place ≠ swap.origin := by
  constructor
  · rintro rfl
    exact (h.first_other hother).left _ (swap.leads_of_visits ⟨[], hleads⟩) ⟨[], hleads⟩
  · rintro rfl
    exact (h.second_other hother).left _ (swap.leads_temporary_of_visits ⟨[], hleads⟩)
      ⟨[], hleads⟩

/-- It leads to another file than the path does afterwards. -/
theorem differ_path (swap : Swap before after path bytes)
    (h : before.FilesApart (path :: temporaryPath path :: others)) {other : String}
    (hother : other ∈ others) : after.Differ path other := by
  have haside := swap.aside_of_filesApart h
  have htemporary := h.second_other hother
  intro place place' hleads hleads' hsame
  rw [swap.leads_other h hother] at hleads'
  obtain ⟨htarget', horigin'⟩ := swap.ne_of_leads_other h hother hleads'
  rcases swap.goes_path haside hleads with ⟨hnil, -⟩ | ⟨hnone, hdone⟩ | ⟨hlink, hleads⟩
  · exact absurd rfl hnil
  · obtain rfl : place = swap.target := congrArg Prod.fst hdone
    have horigin := swap.goes_temporary.tail (advance?_of_no_link hnone [])
    exact htemporary.differ _ _ horigin hleads' (swap.sameFile_origin htarget' horigin' hsame)
  · obtain rfl : place = swap.found.place := swap.leads.end_unique hleads
    have hfound : swap.found.place ≠ swap.origin := by
      intro heq
      exact hlink (heq ▸ swap.deadEnd_found.linkAt_eq)
    rw [sameFile_congr (swap.number?_of_ne haside.found_ne_target hfound)
      (swap.number?_of_ne htarget' horigin')] at hsame
    exact htemporary.differ _ _ hleads hleads' hsame

/-- The path is still one of a file. -/
theorem isFile_path (swap : Swap before after path bytes)
    (h : before.FilesApart (path :: temporaryPath path :: others)) : after.IsFile path := by
  have haside := swap.aside_of_filesApart h
  refine ⟨swap.exists_leads haside, ?_⟩
  intro place rest hleads hgoes
  rcases swap.goes_path haside hgoes with ⟨-, hbefore⟩ | ⟨-, hdone⟩ | ⟨hlink, htemporary⟩
  · rcases swap.goes_path haside hleads with ⟨hnil, -⟩ | ⟨-, hdone⟩ | ⟨-, htemporary⟩
    · exact absurd rfl hnil
    · obtain rfl : place = swap.target := congrArg Prod.fst hdone
      exact h.first.ends _ rest (swap.leads_of_visits ⟨rest, hbefore⟩) hbefore
    · exact absurd ⟨rest, hbefore⟩ (h.pair.right place htemporary)
  · exact congrArg Prod.snd hdone
  · rcases swap.goes_path haside hleads with ⟨hnil, -⟩ | ⟨hnone, -⟩ | ⟨-, hleads⟩
    · exact absurd rfl hnil
    · exact absurd hnone hlink
    · exact h.second.ends place rest hleads htemporary

/-- The path is still apart from the others. -/
theorem apart_path (swap : Swap before after path bytes)
    (h : before.FilesApart (path :: temporaryPath path :: others)) {other : String}
    (hother : other ∈ others) : after.Apart path other := by
  have haside := swap.aside_of_filesApart h
  have hpath := h.first_other hother
  have htemporary := h.second_other hother
  refine ⟨?_, ?_, swap.differ_path h hother⟩
  · intro place hleads hvisits
    rw [swap.visits_other h hother] at hvisits
    rcases swap.goes_path haside hleads with ⟨hnil, -⟩ | ⟨-, hdone⟩ | ⟨-, hleads⟩
    · exact absurd rfl hnil
    · obtain rfl : place = swap.target := congrArg Prod.fst hdone
      exact hpath.left _ (swap.leads_of_visits hvisits) hvisits
    · exact htemporary.left place hleads hvisits
  · rintro place hleads ⟨rest, hgoes⟩
    rw [swap.leads_other h hother] at hleads
    rcases swap.goes_path haside hgoes with ⟨-, hbefore⟩ | ⟨-, hdone⟩ | ⟨-, hbefore⟩
    · exact hpath.right place hleads ⟨rest, hbefore⟩
    · obtain rfl : place = swap.target := congrArg Prod.fst hdone
      exact hpath.right _ hleads ⟨[], swap.leads_of_visits ⟨[], hleads⟩⟩
    · exact htemporary.right place hleads ⟨rest, hbefore⟩

/-- The path and the others lead to different files afterwards. -/
theorem filesApart (swap : Swap before after path bytes)
    (h : before.FilesApart (path :: temporaryPath path :: others)) :
    after.FilesApart (path :: others) := by
  have hfiles : ∀ other ∈ others, after.IsFile other := by
    intro other hother
    obtain ⟨⟨place, hleads⟩, hends⟩ :=
      h.files other (List.mem_cons_of_mem _ (List.mem_cons_of_mem _ hother))
    refine ⟨⟨place, (swap.leads_other h hother place).mpr hleads⟩, ?_⟩
    intro place rest hleads hgoes
    rw [swap.startOf_eq, swap.goes_iff (swap.clear_other h hother)] at hgoes
    exact hends place rest ((swap.leads_other h hother place).mp hleads) hgoes
  constructor
  · intro other hother
    rcases List.mem_cons.mp hother with rfl | hother
    · exact swap.isFile_path h
    · exact hfiles other hother
  · rw [List.pairwise_cons]
    refine ⟨fun other hother => swap.apart_path h hother, ?_⟩
    refine (List.pairwise_cons.mp (List.pairwise_cons.mp h.apart).2).2.imp_of_mem ?_
    intro one other hone hother hapart
    refine ⟨?_, ?_, ?_⟩
    · intro place
      rw [swap.leads_other h hone, swap.visits_other h hother]
      exact hapart.left place
    · intro place
      rw [swap.leads_other h hother, swap.visits_other h hone]
      exact hapart.right place
    · intro place place' hleads hleads'
      rw [swap.leads_other h hone] at hleads
      rw [swap.leads_other h hother] at hleads'
      obtain ⟨htarget, horigin⟩ := swap.ne_of_leads_other h hone hleads
      obtain ⟨htarget', horigin'⟩ := swap.ne_of_leads_other h hother hleads'
      rw [sameFile_congr (swap.number?_of_ne htarget horigin)
        (swap.number?_of_ne htarget' horigin')]
      exact hapart.differ place place' hleads hleads'

end Swap

/-! ## Saves -/

section

variable {disk disk' : Disk} {path : String}

/-- New directories bring no links. -/
theorem Grows.sameLinks (h : Grows disk disk') : SameLinks disk disk' where
  cwd := h.cwd
  number? := h.number?
  linkAt := by
    intro place
    rcases h.get? place with hsame | ⟨hfree, hdir⟩
    · rw [linkAt, linkAt, hsame]
    · rw [linkAt, linkAt, hfree, hdir]

/-- What can be read can still be read among more directories. -/
theorem Grows.read (h : Grows disk disk') {bytes : ByteArray} (hread : disk.read path = .ok bytes) :
    disk'.read path = .ok bytes := by
  obtain ⟨hvalid, place, hwalks⟩ := read_eq_ok_iff.mp hread
  refine read_eq_ok_iff.mpr ⟨hvalid, place, ?_⟩
  rw [h.cwd]
  have hkeeps : Keeps disk disk' [] (disk.cwd, steps path) :=
    fun _ _ _ _ hthere => h.get?_of_some hthere
  exact hwalks.keep (by simp [Found.there?]) (by simp) (by simp) hkeeps

/-- The ways in which a save of some bytes may end: refused at once, after its directories were
made, after some bytes were written, or after the temporary file was moved into place. -/
inductive Saves (disk : Disk) (path : String) (bytes : ByteArray) :
    Disk × Except SaveError Unit → Prop
  | refused (e : SaveError) : Saves disk path bytes (disk, .error e)
  | made (e : SaveError) : Saves disk path bytes ((disk.makeParent path).1, .error e)
  | written {part : ByteArray} {mid : Disk} (e : SaveError)
      (hwrite : (disk.makeParent path).1.write (temporaryPath path) part = .ok mid) :
      Saves disk path bytes (mid, .error e)
  | moved {mid disk' : Disk}
      (hwrite : (disk.makeParent path).1.write (temporaryPath path) bytes = .ok mid)
      (hmove : mid.move (temporaryPath path) path = .ok disk') :
      Saves disk path bytes (disk', .ok ())

/-- A write to the temporary path and the move behind it end in one of these ways. -/
theorem saves_writeThrough (disk : Disk) (fault : Option SaveFault) (path : String)
    (bytes : ByteArray) :
    Saves disk path bytes ((disk.makeParent path).1.writeThrough fault path bytes) := by
  unfold writeThrough
  split
  · rename_i written cause
    generalize bytes.extract 0 written = part
    cases hwrite : (disk.makeParent path).1.write (temporaryPath path) part with
    | error e =>
        simp only [hwrite]
        exact .made _
    | ok mid =>
        simp only [hwrite]
        exact .written _ hwrite
  · cases hwrite : (disk.makeParent path).1.write (temporaryPath path) bytes with
    | error e =>
        simp only [hwrite]
        exact .made _
    | ok mid =>
        simp only [hwrite]
        unfold moveIntoPlace
        split
        · exact .written _ hwrite
        · cases hmove : mid.move (temporaryPath path) path with
          | error e => exact .written _ hwrite
          | ok disk' => exact .moved hwrite hmove

/-- A save ends in one of these ways, whatever the fault. -/
theorem saves_save (disk : Disk) (fault : Option SaveFault) (path text : String) :
    Saves disk path text.toUTF8 (disk.save fault path text) := by
  unfold save
  split
  · exact .refused _
  · rcases hmade : disk.makeParent path with ⟨made, e | _⟩
    · have hend : Saves disk path text.toUTF8 ((disk.makeParent path).1, .error e) := .made e
      rwa [hmade] at hend
    · have hend := saves_writeThrough disk fault path text.toUTF8
      rwa [hmade] at hend

/-- **What a save keeps.**  A save that succeeds makes its text readable at its path, what is read
at other paths stays, and all of them still lead to different files. -/
theorem save_kept {others : List String} (hwf : disk.WellFormed)
    (h : disk.FilesApart (path :: temporaryPath path :: others)) {fault : Option SaveFault}
    {text : String} (hsave : disk.save fault path text = (disk', .ok ())) :
    disk'.WellFormed ∧ disk'.FilesApart (path :: others) ∧
      disk'.read path = .ok text.toUTF8 ∧
      ∀ other ∈ others, ∀ bytes, disk.read other = .ok bytes → disk'.read other = .ok bytes := by
  have hends := saves_save disk fault path text
  rw [hsave] at hends
  cases hends with
  | moved hwrite hmove =>
      have hgrows := grows_makeParent hwf path
      have hmade := hgrows.sameLinks.filesApart h
      obtain ⟨swap⟩ := exists_swap hgrows.wellFormed hmade.pair.symm.differ hwrite hmove
      refine ⟨swap.after_wellFormed, swap.filesApart hmade,
        swap.read (swap.aside_of_filesApart hmade), ?_⟩
      intro other hother bytes hread
      exact swap.read_other hmade hother (hgrows.read hread)

end

end CodeIndex.Disk
