import CodeIndex.Provenance
import CodeIndex.Proofs.Text.Pieces
import CodeIndex.Proofs.Text.Strip

/-!
# Where an index comes from

The commit and the branch of an index are taken as configured, each by itself; what is not
configured is told by the checkout.  The head of the checkout is a commit, or names a reference to
follow.  A reference has the commit in a file of its own, and only without that file is it looked up
among the packed references: there the first line counts that names exactly this reference.

* `Packs`, `PacksFirst` : what the lines of packed references say.
* `CommitOf`, `Tells` : what a checkout tells of a reference and of its head.
* `findPacked_eq_some_iff`, `commitOf_eq_iff`, `checkout_eq_iff` : the readers agree with this.
* `provenance_resolves` : where the commit and the branch come from.
-/

namespace CodeIndex.Source

open Text

variable {disk : Disk} {repository gitDir : String} {reference hash line : List Char}

/-! ## Packed references -/

/-- The line gives the reference a hash: the hash stands in front of the first space, and behind it
stands the reference, with at most blanks around it. -/
def Packs (reference hash line : List Char) : Prop :=
  ∃ name, line = hash ++ ' ' :: name ∧ ' ' ∉ hash ∧ trim name = reference

/-- The hash is what the first line to give the reference one gives it. -/
def PacksFirst (reference hash packed : List Char) : Prop :=
  ∃ front line back, lines packed = front ++ line :: back ∧ Packs reference hash line ∧
    ∀ earlier ∈ front, ∀ other, ¬Packs reference other earlier

/-- A packed line is read exactly if it packs the reference. -/
theorem packedHash?_eq_some_iff {value : String} : packedHash? reference line = some value ↔
    ∃ hash, Packs reference hash line ∧ value = String.ofList hash := by
  rw [packedHash?]
  constructor
  · intro h
    split at h
    · rename_i hash name hsplit
      obtain ⟨rfl, hspace⟩ := splitOnce?_eq_some_iff.mp hsplit
      split at h
      · rename_i hname
        exact ⟨hash, ⟨name, rfl, hspace, beq_iff_eq.mp hname⟩, (Option.some.inj h).symm⟩
      · cases h
    · cases h
  · rintro ⟨hash, ⟨name, rfl, hspace, hname⟩, rfl⟩
    have hsplit : splitOnce? ' ' (hash ++ ' ' :: name) = some (hash, name) :=
      splitOnce?_eq_some_iff.mpr ⟨rfl, hspace⟩
    simp only [hsplit, beq_iff_eq.mpr hname, if_true]

/-- A packed line is passed over exactly if it packs no hash for the reference. -/
theorem packedHash?_eq_none_iff :
    packedHash? reference line = none ↔ ∀ hash, ¬Packs reference hash line := by
  rw [Option.eq_none_iff_forall_ne_some]
  constructor
  · intro h hash hpacks
    exact h _ (packedHash?_eq_some_iff.mpr ⟨hash, hpacks, rfl⟩)
  · intro h value hvalue
    obtain ⟨hash, hpacks, -⟩ := packedHash?_eq_some_iff.mp hvalue
    exact h hash hpacks

/-- The look-up among packed references takes the first line that names the reference. -/
theorem findPacked_eq_some_iff {packed : List Char} {value : String} :
    findPacked reference packed = some value ↔
      ∃ hash, PacksFirst reference hash packed ∧ value = String.ofList hash := by
  rw [findPacked, List.findSome?_eq_some_iff]
  constructor
  · rintro ⟨front, line, back, hlines, hline, hfront⟩
    obtain ⟨hash, hpacks, hvalue⟩ := packedHash?_eq_some_iff.mp hline
    exact ⟨hash, ⟨front, line, back, hlines, hpacks,
      fun earlier hmem => packedHash?_eq_none_iff.mp (hfront earlier hmem)⟩, hvalue⟩
  · rintro ⟨hash, ⟨front, line, back, hlines, hpacks, hfront⟩, hvalue⟩
    exact ⟨front, line, back, hlines, packedHash?_eq_some_iff.mpr ⟨hash, hpacks, hvalue⟩,
      fun earlier hmem => packedHash?_eq_none_iff.mpr (hfront earlier hmem)⟩

/-- Nothing is found exactly if no line packs the reference. -/
theorem findPacked_eq_none_iff {packed : List Char} : findPacked reference packed = none ↔
    ∀ line ∈ lines packed, ∀ hash, ¬Packs reference hash line := by
  simp only [findPacked, List.findSome?_eq_none_iff, packedHash?_eq_none_iff]

/-! ## References -/

/-- What a checkout tells of the commit of a reference. -/
inductive CommitOf (disk : Disk) (gitDir : String) (reference : List Char) : Option String → Prop
  /-- The file of the reference holds the commit, whatever is packed. -/
  | loose {text : String}
      (hfile : disk.readText? (Path.join gitDir (String.ofList reference)) = some text) :
      CommitOf disk gitDir reference (some (trimmed text))
  /-- The reference has no file, and a line of the packed references names it. -/
  | packed {text : String} {hash : List Char}
      (hfile : disk.readText? (Path.join gitDir (String.ofList reference)) = none)
      (hpacked : disk.readText? (Path.join gitDir "packed-refs") = some text)
      (hfirst : PacksFirst reference hash text.toList) :
      CommitOf disk gitDir reference (some (String.ofList hash))
  /-- The reference has neither. -/
  | unknown (hfile : disk.readText? (Path.join gitDir (String.ofList reference)) = none)
      (hpacked : ∀ text, disk.readText? (Path.join gitDir "packed-refs") = some text →
        ∀ line ∈ lines text.toList, ∀ hash, ¬Packs reference hash line) :
      CommitOf disk gitDir reference none

/-- The file of a reference decides its commit. -/
theorem commitOf_of_file {text : String}
    (hfile : disk.readText? (Path.join gitDir (String.ofList reference)) = some text) :
    commitOf disk gitDir reference = some (trimmed text) := by
  -- Unfolding by the equations would try to run the disk.
  delta commitOf
  rw [hfile]

/-- Without that file the packed references decide. -/
theorem commitOf_of_no_file
    (hfile : disk.readText? (Path.join gitDir (String.ofList reference)) = none) :
    commitOf disk gitDir reference = (disk.readText? (Path.join gitDir "packed-refs")).bind
      fun packed => findPacked reference packed.toList := by
  delta commitOf
  rw [hfile]

/-- The look-up of a reference finds the commit that the checkout tells. -/
theorem commitOf_eq_iff {commit : Option String} :
    commitOf disk gitDir reference = commit ↔ CommitOf disk gitDir reference commit := by
  constructor
  · rintro rfl
    cases hfile : disk.readText? (Path.join gitDir (String.ofList reference)) with
    | some text =>
        rw [commitOf_of_file hfile]
        exact .loose hfile
    | none =>
        rw [commitOf_of_no_file hfile]
        cases hpacked : disk.readText? (Path.join gitDir "packed-refs") with
        | none =>
            refine .unknown hfile ?_
            rw [hpacked]
            intro text htext
            cases htext
        | some text =>
            rw [Option.bind_some]
            cases hvalue : findPacked reference text.toList with
            | none =>
                refine .unknown hfile ?_
                rw [hpacked]
                rintro _ ⟨rfl⟩
                exact findPacked_eq_none_iff.mp hvalue
            | some value =>
                obtain ⟨hash, hfirst, rfl⟩ := findPacked_eq_some_iff.mp hvalue
                exact .packed hfile hpacked hfirst
  · intro h
    cases h with
    | loose hfile => exact commitOf_of_file hfile
    | packed hfile hpacked hfirst =>
        rw [commitOf_of_no_file hfile, hpacked]
        exact findPacked_eq_some_iff.mpr ⟨_, hfirst, rfl⟩
    | unknown hfile hpacked =>
        rw [commitOf_of_no_file hfile]
        cases htext : disk.readText? (Path.join gitDir "packed-refs") with
        | none => rfl
        | some text => exact findPacked_eq_none_iff.mpr (hpacked text htext)

/-! ## Heads -/

/-- What the head of a checkout tells. -/
inductive Tells (disk : Disk) (repository : String) : Provenance → Prop
  /-- There is no head to read. -/
  | nothing (hhead : disk.readText? (Path.join (Path.join repository ".git") "HEAD") = none) :
      Tells disk repository ⟨none, none⟩
  /-- The head names no reference, so it is a commit, and there is no branch. -/
  | commit {head : String}
      (hhead : disk.readText? (Path.join (Path.join repository ".git") "HEAD") = some head)
      (hplain : ¬"ref:".toList <+: trim head.toList) :
      Tells disk repository ⟨some (trimmed head), none⟩
  /-- The head names a reference, which may be a branch. -/
  | reference {head : String} {rest : List Char} {told : Provenance}
      (hhead : disk.readText? (Path.join (Path.join repository ".git") "HEAD") = some head)
      (hreference : trim head.toList = "ref:".toList ++ rest)
      (hcommit : CommitOf disk (Path.join repository ".git") (trim rest) told.commit)
      (hbranch : ∀ name, told.branch = some name ↔
        trim rest = "refs/heads/".toList ++ name.toList) :
      Tells disk repository told

/-- The branch of a reference is the reference without the place of branches in front. -/
theorem branch_eq_some_iff {name : String} :
    (stripStart? "refs/heads/".toList reference).map String.ofList = some name ↔
      reference = "refs/heads/".toList ++ name.toList := by
  rw [Option.map_eq_some_iff]
  constructor
  · rintro ⟨rest, hstrip, rfl⟩
    have hrest := (stripStart?_eq_some_iff.mp hstrip).symm
    exact hrest.trans (congrArg _ String.toList_ofList.symm)
  · intro h
    exact ⟨name.toList, stripStart?_eq_some_iff.mpr h.symm, String.ofList_toList⟩

/-- Without a head nothing is known about the checkout. -/
theorem checkout_of_no_head
    (hhead : disk.readText? (Path.join (Path.join repository ".git") "HEAD") = none) :
    checkout disk repository = ⟨none, none⟩ := by
  delta checkout
  simp only [hhead]

/-- With a head its text decides. -/
theorem checkout_of_head {head : String}
    (hhead : disk.readText? (Path.join (Path.join repository ".git") "HEAD") = some head) :
    checkout disk repository = ofHead disk (Path.join repository ".git") head := by
  delta checkout
  simp only [hhead]

/-- A head without `ref:` is the commit itself. -/
theorem ofHead_of_plain {head : String} (h : stripStart? "ref:".toList (trim head.toList) = none) :
    ofHead disk gitDir head = ⟨some (trimmed head), none⟩ := by
  delta ofHead
  simp only [h]
  rfl

/-- A head behind `ref:` names the reference of the commit and, in `refs/heads/`, the branch. -/
theorem ofHead_of_reference {head : String} {rest : List Char}
    (h : stripStart? "ref:".toList (trim head.toList) = some rest) :
    ofHead disk gitDir head = ⟨commitOf disk gitDir (trim rest),
      (stripStart? "refs/heads/".toList (trim rest)).map String.ofList⟩ := by
  delta ofHead
  simp only [h]

/-- The checkout is read as it tells. -/
theorem checkout_eq_iff {told : Provenance} :
    checkout disk repository = told ↔ Tells disk repository told := by
  constructor
  · rintro rfl
    cases hhead : disk.readText? (Path.join (Path.join repository ".git") "HEAD") with
    | none =>
        rw [checkout_of_no_head hhead]
        exact .nothing hhead
    | some head =>
        rw [checkout_of_head hhead]
        cases hstrip : stripStart? "ref:".toList (trim head.toList) with
        | none =>
            rw [ofHead_of_plain hstrip]
            exact .commit hhead (stripStart?_eq_none_iff.mp hstrip)
        | some rest =>
            rw [ofHead_of_reference hstrip]
            generalize hcommit : commitOf disk (Path.join repository ".git") (trim rest) = commit
            exact .reference hhead (stripStart?_eq_some_iff.mp hstrip).symm
              (commitOf_eq_iff.mp hcommit) fun name => branch_eq_some_iff
  · intro h
    cases h with
    | nothing hhead => exact checkout_of_no_head hhead
    | commit hhead hplain =>
        rw [checkout_of_head hhead, ofHead_of_plain (stripStart?_eq_none_iff.mpr hplain)]
    | @reference head rest told hhead hreference hcommit hbranch =>
        have hname : (stripStart? "refs/heads/".toList (trim rest)).map String.ofList
            = told.branch := by
          ext name
          exact branch_eq_some_iff.trans (hbranch name).symm
        rw [checkout_of_head hhead,
          ofHead_of_reference (stripStart?_eq_some_iff.mpr hreference.symm),
          commitOf_eq_iff.mpr hcommit, hname]

/-! ## Provenance -/

/-- A value as it is configured, and else as it is told. -/
inductive Chosen : Option String → Option String → Option String → Prop
  | configured (value : String) (told : Option String) : Chosen (some value) told (some value)
  | told (told : Option String) : Chosen none told told

/-- What is configured comes before what the checkout tells. -/
theorem or_eq_iff_chosen {configured told value : Option String} :
    configured.or told = value ↔ Chosen configured told value := by
  constructor
  · rintro rfl
    cases configured with
    | none => exact .told told
    | some value => exact .configured value told
  · intro h
    cases h <;> rfl

/-- **Where the commit and the branch of an index come from.**  Each of them is as configured
whatever the checkout tells, and else as the checkout tells: a head that names no reference is the
commit, without a branch; a reference has the commit of its own file, and without that file the one
of the first packed line that names exactly this reference; and it is a branch exactly if it stands
among the branches. -/
theorem provenance_resolves (s : Source) (disk : Disk) (p : Provenance) :
    s.provenance disk = p ↔ ∃ told, Tells disk s.repository told ∧
      Chosen s.configured.commit told.commit p.commit ∧
      Chosen s.configured.branch told.branch p.branch := by
  simp only [← checkout_eq_iff, exists_eq_left', ← or_eq_iff_chosen, provenance]
  constructor
  · rintro rfl
    exact ⟨rfl, rfl⟩
  · obtain ⟨commit, branch⟩ := p
    rintro ⟨hcommit, hbranch⟩
    exact congrArg₂ Provenance.mk hcommit hbranch

/-- A checkout on a branch without a file of its own. -/
def packedCheckout : Disk where
  entries :=
    [([".git"], .dir), ([".git", "HEAD"], .file "ref: refs/heads/feature/x\n".toUTF8),
      ([".git", "packed-refs"], .file
        "# pack-refs\naa11 refs/heads/feature/x-old\n^bb22\ncc33 refs/heads/feature/x\n".toUTF8)]

/-- Neither a longer name nor a line without a space is taken for the branch. -/
theorem provenance_resolves_packed : ∃ told, Tells packedCheckout "." told ∧
    Chosen none told.commit (some "cc33") ∧ Chosen none told.branch (some "feature/x") := by
  have hread : (ofRoots "." "sql").provenance packedCheckout
      = ⟨some "cc33", some "feature/x"⟩ := by decide +kernel
  exact (provenance_resolves (ofRoots "." "sql") packedCheckout _).mp hread

end CodeIndex.Source
