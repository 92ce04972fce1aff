import Mathlib.Data.List.Induction
import CodeIndex.Proofs.Php.Isolation

/-!
# Doc blocks

The doc block of a node is the last one in the run of comments directly in front of it.  A node
that is no comment ends the run, so a doc block belongs to one node only: to the next one among its
siblings that is no comment.  So it is on every level of a tree, from the top down to the members
of a class.

* `docOf_iff` : the search among the siblings in front, nearest first, finds the last doc block of
  the run.
* `Attached.unique`, `Attached.comment_between` : a doc block belongs to one node, and to none
  behind another.
* `mem_walkNodes_fill` : the declaration at a site of a tree is found.
* `extract_docs` : the doc blocks in the records of a tree.
-/

namespace CodeIndex.Php

/-! ## Runs of comments -/

/-- The longest run of comments directly in front of a node, and the siblings in front of the
run.  Siblings are given by their comment text, if they are comments. -/
structure RunBefore (siblings : List (Option String)) (node : Nat)
    (front : List (Option String)) (run : List String) : Prop where
  split : siblings.take node = front ++ run.map some
  longest : ∀ text, front.getLast? ≠ some (some text)

/-- The comment at a place is the doc block of a node: of the comments in the run directly in front
of the node it is the last one that starts a doc block. -/
def Attached (siblings : List (Option String)) (place node : Nat) : Prop :=
  ∃ front before text after, RunBefore siblings node front (before ++ text :: after) ∧
    place = front.length + before.length ∧ isDocBlock text = true ∧
    ∀ other ∈ after, isDocBlock other = false

/-- The doc block of a node, or none if no comment of the run in front of it is one. -/
inductive DocOf (siblings : List (Option String)) (node : Nat) : Option String → Prop
  | attached {place : Nat} {text : String} (h : Attached siblings place node)
      (htext : siblings[place]? = some (some text)) : DocOf siblings node (some text)
  | missing {front : List (Option String)} {run : List String}
      (hrun : RunBefore siblings node front run) (h : ∀ text ∈ run, isDocBlock text = false) :
      DocOf siblings node none

section

variable {siblings front : List (Option String)} {run : List String} {place node node' : Nat}
  {doc : Option String}

/-- There is always such a run, perhaps an empty one. -/
theorem exists_runBefore (siblings : List (Option String)) (node : Nat) :
    ∃ front run, RunBefore siblings node front run := by
  have hsplit : ∀ row : List (Option String), ∃ (front : List (Option String)) (run : List String),
      row = front ++ run.map some ∧ ∀ text, front.getLast? ≠ some (some text) := by
    intro row
    induction row using List.reverseRecOn with
    | nil => exact ⟨[], [], rfl, by simp⟩
    | append_singleton row last ih =>
        cases last with
        | none => exact ⟨row ++ [none], [], by simp, by simp⟩
        | some text =>
            obtain ⟨front, run, rfl, hlongest⟩ := ih
            exact ⟨front, run ++ [text], by simp, hlongest⟩
  obtain ⟨front, run, hrow, hlongest⟩ := hsplit (siblings.take node)
  exact ⟨front, run, hrow, hlongest⟩

/-- The run is what is read off the siblings in front, nearest first. -/
theorem RunBefore.commentRun_eq (h : RunBefore siblings node front run) :
    commentRun (siblings.take node).reverse = run.reverse := by
  have hfront : commentRun front.reverse = [] := by
    cases hlast : front.reverse with
    | nil => rfl
    | cons last more =>
        cases last with
        | none => rfl
        | some text =>
            refine absurd ?_ (h.longest text)
            rw [← List.head?_reverse, hlast]
            rfl
  have hrun : ∀ texts : List String, commentRun (texts.map some ++ front.reverse) = texts := by
    intro texts
    induction texts with
    | nil => exact hfront
    | cons text texts ih => simp [commentRun, ih]
  rw [h.split, List.reverse_append, ← List.map_reverse]
  exact hrun run.reverse

/-- A run and what is in front of it stand before the node. -/
theorem RunBefore.length_le (h : RunBefore siblings node front run) :
    front.length + run.length ≤ node := by
  have hlength := congrArg List.length h.split
  simp only [List.length_take, List.length_append, List.length_map] at hlength
  omega

/-- Behind the front of the run the siblings are its comments. -/
theorem RunBefore.getElem?_eq (h : RunBefore siblings node front run) {i : Nat}
    (hi : i < run.length) : siblings[front.length + i]? = some (some run[i]) := by
  have hlength := h.length_le
  have htake : (siblings.take node)[front.length + i]? = siblings[front.length + i]? :=
    List.getElem?_take_of_lt (by omega)
  rw [← htake, h.split, List.getElem?_append_right (by omega)]
  simp [hi]

/-- **The search finds the last doc block of the run.** -/
theorem docOf_iff : DocOf siblings node doc ↔ docBlock (siblings.take node).reverse = doc := by
  rw [docBlock_eq]
  constructor
  · intro h
    cases h with
    | attached hattached htext =>
        obtain ⟨front, before, text, after, hrun, rfl, hdoc, hafter⟩ := hattached
        rw [hrun.getElem?_eq (by simp)] at htext
        simp only [List.getElem_append_right (Nat.le_refl _), Nat.sub_self, List.getElem_cons_zero,
          Option.some.injEq] at htext
        rw [hrun.commentRun_eq, List.find?_eq_some_iff_append, ← htext]
        refine ⟨hdoc, after.reverse, before.reverse, by simp, ?_⟩
        intro other hother
        rw [hafter other (List.mem_reverse.mp hother)]
        rfl
    | missing hrun hnone =>
        rw [hrun.commentRun_eq, List.find?_eq_none]
        intro text htext
        rw [hnone text (List.mem_reverse.mp htext)]
        exact Bool.false_ne_true
  · intro h
    obtain ⟨front, run, hrun⟩ := exists_runBefore siblings node
    rw [hrun.commentRun_eq] at h
    cases doc with
    | none =>
        refine .missing hrun fun text htext => ?_
        exact Bool.eq_false_iff.mpr (List.find?_eq_none.mp h text (List.mem_reverse.mpr htext))
    | some text =>
        obtain ⟨hdoc, after, before, hreverse, hafter⟩ := List.find?_eq_some_iff_append.mp h
        obtain rfl : run = before.reverse ++ text :: after.reverse := by
          rw [← List.reverse_reverse run, hreverse]
          simp
        refine .attached ⟨front, before.reverse, text, after.reverse, hrun, rfl, hdoc, ?_⟩ ?_
        · intro other hother
          simpa using hafter other (List.mem_reverse.mp hother)
        · rw [hrun.getElem?_eq (by simp)]
          simp

/-- Between a doc block and its node there are only comments, and none of them is a doc block. -/
theorem Attached.comment_between (h : Attached siblings place node) {between : Nat}
    (hplace : place < between) (hnode : between < node) (hthere : node ≤ siblings.length) :
    ∃ text, siblings[between]? = some (some text) ∧ isDocBlock text = false := by
  obtain ⟨front, before, text, after, hrun, rfl, -, hafter⟩ := h
  have hlength := congrArg List.length hrun.split
  simp only [List.length_take, List.length_append, List.length_map, List.length_cons] at hlength
  obtain ⟨i, rfl⟩ : ∃ i, between = front.length + (before.length + (i + 1)) :=
    ⟨between - (front.length + before.length) - 1, by omega⟩
  have hi : i < after.length := by omega
  refine ⟨after[i], ?_, hafter _ (List.getElem_mem hi)⟩
  rw [hrun.getElem?_eq (by simp; omega)]
  simp [List.getElem_append_right]

/-- A doc block stands in front of its node. -/
theorem Attached.lt (h : Attached siblings place node) : place < node := by
  obtain ⟨front, before, text, after, hrun, rfl, -, -⟩ := h
  have hlength := hrun.length_le
  simp only [List.length_append, List.length_cons] at hlength
  omega

/-- **A doc block belongs to one node.** -/
theorem Attached.unique (h : Attached siblings place node) (h' : Attached siblings place node')
    (hnode : siblings[node]? = some none) (hnode' : siblings[node']? = some none) :
    node = node' := by
  have hthere := (List.getElem?_eq_some_iff.mp hnode).1
  have hthere' := (List.getElem?_eq_some_iff.mp hnode').1
  -- Of two nodes the first would be a comment between the doc block and the second.
  rcases Nat.lt_trichotomy node node' with hlt | heq | hgt
  · obtain ⟨text, htext, -⟩ := h'.comment_between h.lt hlt (by omega)
    simp [htext] at hnode
  · exact heq
  · obtain ⟨text, htext, -⟩ := h.comment_between h'.lt hgt (by omega)
    simp [htext] at hnode'

/-- A doc block with another node behind it belongs to none further on. -/
theorem Attached.not_behind (h : Attached siblings place node) (hthere : node < siblings.length)
    {other : Nat} (hplace : place < other) (hother : other < node) :
    siblings[other]? ≠ some none := by
  obtain ⟨text, htext, -⟩ := h.comment_between hplace hother (Nat.le_of_lt hthere)
  simp [htext]

end

/-! ## The levels of a tree -/

namespace Site

/-- The siblings at a site, with a node there. -/
def row (node : Node) : Site → List Node
  | .here left right => left ++ node :: right
  | .inOther _ inner _ => inner.row node
  | .inBlock _ _ inner _ => inner.row node

/-- The place of the site among its siblings. -/
def place : Site → Nat
  | .here left _ => left.length
  | .inOther _ inner _ => inner.place
  | .inBlock _ _ inner _ => inner.place

/-- The siblings in front of a site are those that its row begins with. -/
theorem siblings_eq (node : Node) (site : Site) :
    site.siblings [] = (((site.row node).map Node.commentText?).take site.place).reverse := by
  induction site with
  | here left right => simp [siblings, row, place]
  | inOther left inner right ih => exact ih
  | inBlock left name inner right ih => exact ih

end Site

/-- The doc block at a site is that of its node. -/
theorem docOf_site (node : Node) (site : Site) :
    DocOf ((site.row node).map Node.commentText?) site.place (docBlock (site.siblings [])) :=
  docOf_iff.mpr (by rw [site.siblings_eq node])

/-- The walk over siblings goes on behind some of them with the namespace in effect there. -/
theorem walkNodes_append (path : String) (seen : List (Option String)) (before : List ScopeEvent)
    (left right : List Node) :
    (walkNodes path seen (inEffect before) (left ++ right)).2
      = (walkNodes path seen (inEffect before) left).2
        ++ (walkNodes path ((left.map Node.commentText?).reverse ++ seen)
            (inEffect (before ++ outerEvents (nodeMarks false left))) right).2 := by
  induction left generalizing seen before with
  | nil => simp [walkNodes, nodeMarks]
  | cons node left ih =>
      have hspace := (walkNode_listing path seen before node).1
      simp [walkNodes, nodeMarks, hspace, ih]

/-- **The declaration at a site is found.** -/
theorem mem_walkNodes_fill (path : String) (head : ClassHead) (members : List Member)
    (site : Site) (seen : List (Option String)) (before : List ScopeEvent) :
    declare path (inEffect (before ++ site.events)) (docBlock (site.siblings seen)) head members
      ∈ (walkNodes path seen (inEffect before) (site.fill (.classLike head members))).2 := by
  induction site generalizing seen before with
  | here left right =>
      rw [Site.fill, walkNodes_append]
      refine List.mem_append_right _ ?_
      simp [walkNodes, walkNode, Site.events, Site.siblings]
  | inOther left inner right ih =>
      have hinner := ih [] (before ++ outerEvents (nodeMarks false left))
      rw [Site.fill, walkNodes_append]
      refine List.mem_append_right _ (List.mem_append_left _ ?_)
      simpa [walkNode, Site.events, Site.siblings] using hinner
  | inBlock left name inner right ih =>
      have hinner := ih [] (before ++ outerEvents (nodeMarks false left) ++ [.opens name])
      rw [inEffect_opens] at hinner
      rw [Site.fill, walkNodes_append]
      refine List.mem_append_right _ (List.mem_append_left _ ?_)
      simpa [walkNode, Site.events, Site.siblings] using hinner

/-- The doc blocks of members, one for each. -/
def memberDocs (members : List Member) : List (Option String) :=
  (withDocs [] members).map Prod.snd

/-- The doc block of a member is that of its node among the members. -/
theorem docOf_memberDocs {members : List Member} {i : Nat} {doc : Option String}
    (h : (memberDocs members)[i]? = some doc) :
    DocOf (members.map Member.commentText?) i doc := by
  rw [memberDocs, withDocs_eq, List.map_map, List.getElem?_map, List.getElem?_zipIdx,
    Option.map_map, Option.map_eq_some_iff] at h
  obtain ⟨member, -, rfl⟩ := h
  rw [docOf_iff, docBlock_eq, ← List.map_take, Function.comp_apply, Function.comp_apply,
    Nat.zero_add]
  rfl

/-- Members with their doc blocks. -/
theorem zip_memberDocs (members : List Member) :
    members.zip (memberDocs members) = withDocs [] members := by
  have hmembers : (withDocs [] members).map Prod.fst = members := by
    rw [withDocs_eq, List.map_map]
    exact List.zipIdx_map_fst 0 members
  have hzip := List.zip_unzip (withDocs [] members)
  rwa [List.unzip_fst, List.unzip_snd, hmembers] at hzip

/-! ## The records of a tree -/

/-- The record of a declaration at a site holds the doc blocks of the nodes that it comes from: its
own, and those of its members. -/
structure RecordsDocs (path : String) (site : Site) (head : ClassHead) (members : List Member)
    (d : Declaration) : Prop where
  record : d = declare path site.space d.doc head members
  doc : DocOf ((site.row (.classLike head members)).map Node.commentText?) site.place d.doc
  members : ∃ docs, docs.length = members.length ∧
    (∀ i doc, docs[i]? = some doc → DocOf (members.map Member.commentText?) i doc) ∧
    d.methods = (members.zip docs).flatMap methodsOf ∧
    d.properties = (members.zip docs).flatMap propertiesOf ∧
    d.constants = (members.zip docs).flatMap constantsOf

/-- The record that is made at a site is such a record. -/
theorem recordsDocs_declare (path : String) (site : Site) (head : ClassHead)
    (members : List Member) :
    RecordsDocs path site head members
      (declare path site.space (docBlock (site.siblings [])) head members) where
  record := rfl
  doc := docOf_site (.classLike head members) site
  members := by
    refine ⟨memberDocs members, ?_, fun i doc h => docOf_memberDocs h, ?_⟩
    · simp [memberDocs, withDocs_eq]
    · rw [zip_memberDocs]
      exact ⟨rfl, rfl, rfl⟩

/-- **A doc block belongs to one node.**  At every site of a tree the declaration is recorded with
the last doc block in the run of comments directly in front of it, or with none, and so are its
methods, properties and constants; no other records are made.  A doc block is that of one node
only, and never of one behind another node that is no comment. -/
theorem extract_docs (path : String) :
    (∀ (site : Site) (head : ClassHead) (members : List Member),
      ∃ d ∈ extract path (site.fill (.classLike head members)),
        RecordsDocs path site head members d) ∧
    (∀ tree, ∀ d ∈ extract path tree, ∃ site head members,
      tree = site.fill (.classLike head members) ∧ RecordsDocs path site head members d) ∧
    ∀ (siblings : List (Option String)) (place node : Nat), Attached siblings place node →
      siblings[node]? = some none →
      (∀ other, siblings[other]? = some none → Attached siblings place other → other = node) ∧
      ∀ other, place < other → other < node → siblings[other]? ≠ some none := by
  refine ⟨?_, ?_, ?_⟩
  · intro site head members
    have hfound := mem_walkNodes_fill path head members site [] []
    exact ⟨_, hfound, recordsDocs_declare path site head members⟩
  · intro tree d hd
    obtain ⟨site, head, members, rfl, rfl⟩ := exists_site_of_mem_extract hd
    exact ⟨site, head, members, rfl, recordsDocs_declare path site head members⟩
  · intro siblings place node hattached hnode
    refine ⟨fun other hother h => h.unique hattached hother hnode, fun other hplace hother => ?_⟩
    exact hattached.not_behind (List.getElem?_eq_some_iff.mp hnode).1 hplace hother

/-- A class behind a doc block and a plain comment, and one directly behind it: the doc block is
that of the first class.  In the first class a doc block belongs to the property. -/
theorem extract_docs_first :
    let tree : List Node := [.comment "/** a */", .comment "# b",
      .classLike { name := "A" } [.comment "/** p */", .comment "// q",
        .property { elements := [("$x", none)] }, .method { name := "f" } []],
      .classLike { name := "B" } []]
    let d : Declaration :=
      { name := "A", space := "", qualifiedName := "A", doc := some "/** a */",
        methods := [{ name := "f" }], properties := [{ name := "x", doc := some "/** p */" }],
        path := "p" }
    d ∈ extract "p" tree ∧
      (∃ site head members, tree = site.fill (.classLike head members) ∧
        RecordsDocs "p" site head members d) ∧
      Attached (tree.map Node.commentText?) 0 2 ∧
      (tree.map Node.commentText?)[2]? = some none ∧
      (tree.map Node.commentText?)[3]? = some none ∧
      ¬Attached (tree.map Node.commentText?) 0 3 := by
  intro tree d
  have hmem : d ∈ extract "p" tree := by decide
  have hattached : Attached (tree.map Node.commentText?) 0 2 :=
    ⟨[], [], "/** a */", ["# b"], ⟨rfl, by simp⟩, rfl, by decide, by decide⟩
  obtain ⟨-, hfound, hone⟩ := extract_docs "p"
  refine ⟨hmem, hfound tree d hmem, hattached, rfl, rfl, fun h => ?_⟩
  have hsame := (hone _ 0 2 hattached rfl).1 3 rfl h
  omega

end CodeIndex.Php
