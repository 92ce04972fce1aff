import CodeIndex.Proofs.Php.Members
import CodeIndex.Proofs.Php.Scope

/-!
# Declarations do not leak into each other

A declaration is found at a site of its tree: a place among siblings that is reached through
blocks and other constructs, but through no class, interface or trait.  Its record is made of
its own head and members, the run of comments directly in front of it, the namespace in effect
and the path.  Whatever class, interface or trait stands at another site, the record and its
place in the list stay as they are.

In the record, every method, property, constant and used trait comes from one direct member,
in their order: each member gives what is recorded of it, and that is all there is.  What stands
deeper, in the body of a method or in another construct, takes no part.

* `exists_located_nodes` : every declaration found is found at a site, and is one for any head
  and members there.
* `withDocs_eq` : each direct member is read once, with the doc block in front of it.
* `declare_congr` : what stands deeper in a member does not change the record.
* `recordsDeclaration_declare` : what a record holds of its head and its members.
* `extract_isolated` : the record of a declaration and those of all others.
-/

namespace CodeIndex.Php

/-! ## Sites -/

/-- A place for one node in a tree, outside classes, interfaces and traits. -/
inductive Site where
  /-- Among these siblings. -/
  | here (left right : List Node)
  /-- Below another construct, which stands among these siblings. -/
  | inOther (left : List Node) (inner : Site) (right : List Node)
  /-- In a namespace block, which stands among these siblings. -/
  | inBlock (left : List Node) (name : String) (inner : Site) (right : List Node)

namespace Site

/-- The tree with a node at the site. -/
def fill (node : Node) : Site → List Node
  | .here left right => left ++ node :: right
  | .inOther left inner right => left ++ .other (inner.fill node) :: right
  | .inBlock left name inner right => left ++ .spaceBlock name (inner.fill node) :: right

/-- The events in front of the site. -/
def events : Site → List ScopeEvent
  | .here left _ => outerEvents (nodeMarks false left)
  | .inOther left inner _ => outerEvents (nodeMarks false left) ++ inner.events
  | .inBlock left name inner _ =>
    outerEvents (nodeMarks false left) ++ .opens name :: inner.events

/-- The namespace in effect at the site. -/
def space (site : Site) : String := inEffect site.events

/-- The siblings in front of the site, nearest first, by their comment text; `seen` are those in
front of the tree. -/
def siblings (seen : List (Option String)) : Site → List (Option String)
  | .here left _ => (left.map Node.commentText?).reverse ++ seen
  | .inOther _ inner _ => inner.siblings []
  | .inBlock _ _ inner _ => inner.siblings []

/-- The site in a tree with one more node in front. -/
def behind (node : Node) : Site → Site
  | .here left right => .here (node :: left) right
  | .inOther left inner right => .inOther (node :: left) inner right
  | .inBlock left name inner right => .inBlock (node :: left) name inner right

/-- A node in front of a site stays in front when the site is filled. -/
theorem fill_behind (first node : Node) (site : Site) :
    (site.behind first).fill node = first :: site.fill node := by
  cases site <;> rfl

/-- The events of that node come first. -/
theorem events_behind (first : Node) (site : Site) :
    (site.behind first).events = outerEvents (first.marks false) ++ site.events := by
  cases site <;> simp [behind, events, nodeMarks]

/-- The comment of that node is the nearest in front. -/
theorem siblings_behind (seen : List (Option String)) (first : Node) (site : Site) :
    (site.behind first).siblings seen = site.siblings (first.commentText? :: seen) := by
  cases site <;> simp [behind, siblings]

end Site

/-- The run of comments directly in front of a place, nearest first, among the siblings in front
of it. -/
def commentRun : List (Option String) → List String
  | some text :: rest => text :: commentRun rest
  | none :: _ => []
  | [] => []

/-- The run of comments directly in front of a site. -/
def Site.run (site : Site) : List String := commentRun (site.siblings [])

/-- The doc block of a node is the nearest one in the run of comments in front of it. -/
theorem docBlock_eq (siblings : List (Option String)) :
    docBlock siblings = (commentRun siblings).find? isDocBlock := by
  induction siblings with
  | nil => rfl
  | cons first rest ih =>
    cases first with
    | none => rfl
    | some text =>
      by_cases hdoc : isDocBlock text = true
      · simp [docBlock, commentRun, hdoc]
      · simp [docBlock, commentRun, hdoc, ih]

/-! ## The walk meets a declaration -/

/-- The `index`th declaration of some nodes is found at a site of theirs, and whatever head and
members stand there, the walk finds the same declarations around it and ends in the same
namespace. -/
def Located (path : String) (seen : List (Option String)) (before : List ScopeEvent)
    (nodes : List Node) (index : Nat) : Prop :=
  ∃ (site : Site) (head : ClassHead) (members : List Member),
    nodes = site.fill (.classLike head members) ∧
    ∃ (front back : List Declaration) (last : String), front.length = index ∧
      ∀ head' members', walkNodes path seen (inEffect before) (site.fill (.classLike head' members'))
        = (last, front ++ declare path (inEffect (before ++ site.events))
            (docBlock (site.siblings seen)) head' members' :: back)

/-- A declaration behind a node is located behind it. -/
theorem Located.behind {path : String} {seen : List (Option String)} {before : List ScopeEvent}
    {nodes : List Node} {index : Nat} (node : Node)
    (h : Located path (node.commentText? :: seen) (before ++ outerEvents (node.marks false))
      nodes index) :
    Located path seen before (node :: nodes)
      ((walkNode path seen (inEffect before) node).2.length + index) := by
  obtain ⟨site, head, members, rfl, front, back, last, hlength, hwalk⟩ := h
  have hspace := (walkNode_listing path seen before node).1
  refine ⟨site.behind node, head, members, (site.fill_behind _ _).symm,
    (walkNode path seen (inEffect before) node).2 ++ front, back, last, by simp [hlength], ?_⟩
  intro head' members'
  rw [Site.fill_behind, walkNodes]
  simp only [hspace, hwalk, Site.events_behind, Site.siblings_behind, List.append_assoc]

mutual

/-- A declaration found in a node is located in it, whatever stands behind the node. -/
theorem exists_located_node (path : String) : ∀ (node : Node) (seen : List (Option String))
    (before : List ScopeEvent) (index : Nat),
    index < (walkNode path seen (inEffect before) node).2.length →
    ∀ rest, Located path seen before (node :: rest) index
  | .comment _, _, _, _, h, _ => by simp [walkNode] at h
  | .spaceStatement _, _, _, _, h, _ => by simp [walkNode] at h
  | .classLike head members, seen, before, index, h, rest => by
    have hfirst : index = 0 := by simpa [walkNode] using h
    refine ⟨.here [] rest, head, members, rfl, [], (walkNodes path (none :: seen)
      (inEffect before) rest).2, (walkNodes path (none :: seen) (inEffect before) rest).1,
      hfirst.symm, ?_⟩
    intro head' members'
    simp [Site.fill, walkNodes, walkNode, Node.commentText?, Site.events, Site.siblings, nodeMarks]
  | .spaceBlock name body, seen, before, index, h, rest => by
    have hinner := exists_located_nodes path body [] (before ++ [.opens name]) index
      (by rw [inEffect_opens]; exact h)
    obtain ⟨site, head, members, rfl, front, back, last, hlength, hwalk⟩ := hinner
    rw [inEffect_opens] at hwalk
    refine ⟨.inBlock [] name site rest, head, members, rfl, front, back ++ (walkNodes path
      (none :: seen) (inEffect before) rest).2, (walkNodes path (none :: seen)
      (inEffect before) rest).1, hlength, ?_⟩
    intro head' members'
    simp [Site.fill, walkNodes, walkNode, Node.commentText?, hwalk, Site.events, Site.siblings,
      nodeMarks]
  | .other children, seen, before, index, h, rest => by
    have hinner := exists_located_nodes path children [] before index h
    obtain ⟨site, head, members, rfl, front, back, last, hlength, hwalk⟩ := hinner
    refine ⟨.inOther [] site rest, head, members, rfl, front, back ++ (walkNodes path
      (none :: seen) last rest).2, (walkNodes path (none :: seen) last rest).1, hlength, ?_⟩
    intro head' members'
    simp [Site.fill, walkNodes, walkNode, Node.commentText?, hwalk, Site.events, Site.siblings,
      nodeMarks]

/-- **Every declaration has its site.**  A declaration found among siblings is located in
them. -/
theorem exists_located_nodes (path : String) : ∀ (nodes : List Node) (seen : List (Option String))
    (before : List ScopeEvent) (index : Nat),
    index < (walkNodes path seen (inEffect before) nodes).2.length →
    Located path seen before nodes index
  | [], _, _, _, h => by simp [walkNodes] at h
  | node :: rest, seen, before, index, h => by
    by_cases hhere : index < (walkNode path seen (inEffect before) node).2.length
    · exact exists_located_node path node seen before index hhere rest
    · have hspace := (walkNode_listing path seen before node).1
      have hindex : index = (walkNode path seen (inEffect before) node).2.length
          + (index - (walkNode path seen (inEffect before) node).2.length) := by omega
      rw [hindex]
      apply Located.behind
      apply exists_located_nodes path rest
      simp only [walkNodes, hspace, List.length_append] at h
      omega

end

/-- A declaration that is found comes from a site of the tree. -/
theorem exists_site_of_mem_extract {path : String} {tree : List Node} {d : Declaration}
    (h : d ∈ extract path tree) : ∃ (site : Site) (head : ClassHead) (members : List Member),
      tree = site.fill (.classLike head members) ∧
      d = declare path site.space (docBlock (site.siblings [])) head members := by
  obtain ⟨index, hget⟩ := List.mem_iff_getElem?.mp h
  obtain ⟨hindex, -⟩ := List.getElem?_eq_some_iff.mp hget
  obtain ⟨site, head, members, rfl, front, back, last, hlength, hwalk⟩ :=
    exists_located_nodes path tree [] [] index hindex
  have hfound : extract path (site.fill (.classLike head members))
      = front ++ declare path site.space (docBlock (site.siblings [])) head members :: back :=
    congrArg Prod.snd (hwalk head members)
  rw [hfound, ← hlength, List.getElem?_append_right (Nat.le_refl _), Nat.sub_self,
    List.getElem?_cons_zero, Option.some.injEq] at hget
  exact ⟨site, head, members, rfl, hget.symm⟩

/-! ## The members of a record -/

/-- The doc block of the member at an index. -/
def memberDoc (members : List Member) (index : Nat) : Option String :=
  (commentRun ((members.take index).map Member.commentText?).reverse).find? isDocBlock

/-- Reading members with their doc blocks, behind `front`. -/
theorem withDocs_append (front members : List Member) :
    withDocs (front.map Member.commentText?).reverse members
      = (members.zipIdx front.length).map fun (member, index) =>
          (member, memberDoc (front ++ members) index) := by
  induction members generalizing front with
  | nil => rfl
  | cons member members ih =>
    have hnext := ih (front ++ [member])
    simp only [List.map_append, List.map_cons, List.map_nil, List.reverse_append,
      List.reverse_cons, List.reverse_nil, List.nil_append, List.singleton_append,
      List.append_assoc, List.length_append, List.length_cons, List.length_nil] at hnext
    simp [withDocs, hnext, memberDoc, docBlock_eq]

/-- **Each direct member once.**  The members of a record are its direct ones, in their order,
each with the doc block in the comments directly in front of it. -/
theorem withDocs_eq (members : List Member) :
    withDocs [] members
      = members.zipIdx.map fun (member, index) => (member, memberDoc members index) :=
  withDocs_append [] members

/-- A member without what stands deeper in it. -/
def Member.hollow : Member → Member
  | .method head _ => .method head []
  | .other _ => .other []
  | .comment text => .comment text
  | .property node => .property node
  | .constants node => .constants node
  | .traitUse names => .traitUse names

/-- Being a comment is seen without what stands deeper. -/
theorem Member.commentText?_hollow (member : Member) :
    member.hollow.commentText? = member.commentText? := by
  cases member <;> rfl

/-- So are the doc blocks. -/
theorem withDocs_hollow (seen : List (Option String)) (members : List Member) :
    withDocs seen (members.map Member.hollow)
      = (withDocs seen members).map fun (member, doc) => (member.hollow, doc) := by
  induction members generalizing seen with
  | nil => rfl
  | cons member members ih => simp [withDocs, Member.commentText?_hollow, ih]

/-- What is read of each member does not depend on what stands deeper in it. -/
theorem flatMap_withDocs_hollow {α : Type} {read : Member × Option String → List α}
    (hread : ∀ member doc, read (member.hollow, doc) = read (member, doc))
    (members : List Member) :
    (withDocs [] (members.map Member.hollow)).flatMap read = (withDocs [] members).flatMap read := by
  have hsame : (fun documented : Member × Option String =>
      read (documented.1.hollow, documented.2)) = read := by
    funext documented
    exact hread documented.1 documented.2
  rw [withDocs_hollow, List.flatMap_map]
  exact congrArg (List.flatMap · (withDocs [] members)) hsame

/-- The record of a declaration with its members emptied. -/
theorem declare_hollow (path space : String) (doc : Option String) (head : ClassHead)
    (members : List Member) :
    declare path space doc head (members.map Member.hollow)
      = declare path space doc head members := by
  have hmethods : ∀ member doc, methodsOf (member.hollow, doc) = methodsOf (member, doc) := by
    intro member doc
    cases member <;> rfl
  have hproperties : ∀ member doc,
      propertiesOf (member.hollow, doc) = propertiesOf (member, doc) := by
    intro member doc
    cases member <;> rfl
  have hconstants : ∀ member doc, constantsOf (member.hollow, doc) = constantsOf (member, doc) := by
    intro member doc
    cases member <;> rfl
  have htraits : ∀ member doc, traitsOf (member.hollow, doc) = traitsOf (member, doc) := by
    intro member doc
    cases member <;> rfl
  simp only [declare, flatMap_withDocs_hollow hmethods, flatMap_withDocs_hollow hproperties,
    flatMap_withDocs_hollow hconstants, flatMap_withDocs_hollow htraits]

/-- **Nothing deeper contributes.**  Members that differ only in what stands deeper give the
same record. -/
theorem declare_congr {members others : List Member}
    (h : members.map Member.hollow = others.map Member.hollow) (path space : String)
    (doc : Option String) (head : ClassHead) :
    declare path space doc head members = declare path space doc head others := by
  rw [← declare_hollow, h, declare_hollow]

/-! ## Isolation -/

/-- The direct members of a declaration, in their order, each with its doc block. -/
def documented (members : List Member) : List (Member × Option String) :=
  members.zipIdx.map fun (member, index) => (member, memberDoc members index)

/-- The record of a declaration: what stands in its head, under the path and the namespace and
behind the doc block, and what its direct members give, each of them once and in their order. -/
structure RecordsDeclaration (path space : String) (doc : Option String) (head : ClassHead)
    (members : List Member) (d : Declaration) : Prop where
  name : d.name = head.name
  qualifiedName : d.qualifiedName = qualify space head.name
  space : d.space = space
  kind : d.kind = head.kind
  isAbstract : d.isAbstract = true ↔ Modifier.abstract ∈ head.modifiers
  parent : Option.Rel IsBareName head.parents.head? d.parent
  interfaces : List.Forall₂ IsBareName head.interfaces d.interfaces
  doc : d.doc = doc
  path : d.path = path
  methods : Collected GivesMethods (documented members) d.methods
  properties : Collected GivesProperties (documented members) d.properties
  constants : Collected GivesConstants (documented members) d.constants
  traits : Collected GivesTraits (documented members) d.traits

/-- A declaration is recorded. -/
theorem recordsDeclaration_declare (path space : String) (doc : Option String) (head : ClassHead)
    (members : List Member) :
    RecordsDeclaration path space doc head members (declare path space doc head members) := by
  have hdocs : withDocs [] members = documented members := withDocs_eq members
  refine
    { name := rfl, space := rfl, qualifiedName := rfl, kind := rfl
      isAbstract := by rw [declare, List.contains_iff_mem]
      parent := ?_
      interfaces := forall₂_map isBareName_bareName head.interfaces
      doc := rfl, path := rfl, methods := ?_, properties := ?_, constants := ?_, traits := ?_ }
  · show Option.Rel IsBareName head.parents.head? (head.parents.map bareName).head?
    cases head.parents with
    | nil => exact .none
    | cons parent parents => exact .some (isBareName_bareName parent)
  all_goals rw [← hdocs]
  · exact collected_flatMap givesMethods_methodsOf _
  · exact collected_flatMap givesProperties_propertiesOf _
  · exact collected_flatMap givesConstants_constantsOf _
  · exact collected_flatMap givesTraits_traitsOf _

/-- Around one place of a list nothing depends on what stands there. -/
theorem getElem?_append_cons_of_ne {α : Type} {front back : List α} (a b : α) {i : Nat}
    (h : i ≠ front.length) : (front ++ a :: back)[i]? = (front ++ b :: back)[i]? := by
  by_cases hfront : i < front.length
  · rw [List.getElem?_append_left hfront, List.getElem?_append_left hfront]
  · obtain ⟨n, hn⟩ : ∃ n, i - front.length = n + 1 := ⟨i - front.length - 1, by omega⟩
    rw [List.getElem?_append_right (by omega), List.getElem?_append_right (by omega), hn]
    rfl

/-- **Declarations are isolated.**  Each declaration of a tree is found at a site.  Its record
is that of its own head and members under the path, the namespace in effect and the nearest doc
block in the run of comments in front of it.  With any other class, interface or trait at the
site, all other records keep their places.  Methods, properties, constants and used traits are
what the direct members give, one after the other, and members that differ only in what stands
deeper give the same record. -/
theorem extract_isolated {path : String} {tree : List Node} {index : Nat} {d : Declaration}
    (h : (extract path tree)[index]? = some d) :
    ∃ (site : Site) (head : ClassHead) (members : List Member),
      tree = site.fill (.classLike head members) ∧
      d = declare path site.space (site.run.find? isDocBlock) head members ∧
      (∀ head' members',
        (extract path (site.fill (.classLike head' members')))[index]?
          = some (declare path site.space (site.run.find? isDocBlock) head' members') ∧
        ∀ other, other ≠ index →
          (extract path (site.fill (.classLike head' members')))[other]?
            = (extract path tree)[other]?) ∧
      RecordsDeclaration path site.space (site.run.find? isDocBlock) head members d ∧
      ∀ members', members'.map Member.hollow = members.map Member.hollow →
        declare path site.space (site.run.find? isDocBlock) head members' = d := by
  obtain ⟨hindex, -⟩ := List.getElem?_eq_some_iff.mp h
  obtain ⟨site, head, members, rfl, front, back, last, hlength, hwalk⟩ :=
    exists_located_nodes path tree [] [] index hindex
  have hextract : ∀ head' members', extract path (site.fill (.classLike head' members'))
      = front ++ declare path site.space (site.run.find? isDocBlock) head' members' :: back := by
    intro head' members'
    have hwalked := hwalk head' members'
    rw [inEffect_nil, List.nil_append, docBlock_eq] at hwalked
    rw [extract, hwalked]
    rfl
  have hplace : ∀ head' members', (extract path (site.fill (.classLike head' members')))[index]?
      = some (declare path site.space (site.run.find? isDocBlock) head' members') := by
    intro head' members'
    simp [hextract, ← hlength]
  have hrecord : d = declare path site.space (site.run.find? isDocBlock) head members := by
    rw [hplace] at h
    exact (Option.some.inj h).symm
  have hothers : ∀ head' members' other, other ≠ index →
      (extract path (site.fill (.classLike head' members')))[other]?
        = (extract path (site.fill (.classLike head members)))[other]? := by
    intro head' members' other hother
    rw [hextract, hextract]
    exact getElem?_append_cons_of_ne _ _ (by omega)
  refine ⟨site, head, members, rfl, hrecord,
    fun head' members' => ⟨hplace head' members', hothers head' members'⟩, ?_, ?_⟩
  · rw [hrecord]
    exact recordsDeclaration_declare path site.space _ head members
  · intro members' hmembers
    rw [hrecord]
    exact declare_congr hmembers path site.space _ head

/-- A class behind a namespace block with a class of its own: a comment and a doc block stand in
front of it, and its method holds a class that is not found. -/
theorem extract_isolated_second :
    let second : ClassHead := { name := "B" }
    let members : List Member :=
      [.method { name := "f" } [.classLike { name := "C" } [.constants { elements := [("K", none)] }]],
        .constants { elements := [("L", some (.scalar "1")), ("M", some .other)] },
        .traitUse ["\\T"]]
    let tree : List Node :=
      [.spaceBlock "N" [.classLike { name := "A" } []],
        .other [.spaceStatement "M", .comment "/** b */", .comment "// b", .classLike second members]]
    let record : Declaration :=
      { name := "B", space := "M", qualifiedName := "M\\B", traits := ["T"],
        doc := some "/** b */", methods := [{ name := "f" }],
        constants := [{ name := "L", value := some "1" }, { name := "M", value := some "..." }],
        path := "p" }
    (extract "p" tree)[1]? = some record ∧
      ∃ (site : Site) (head : ClassHead) (members : List Member),
        tree = site.fill (.classLike head members) ∧
        RecordsDeclaration "p" site.space (site.run.find? isDocBlock) head members record := by
  intro second members tree record
  have h : (extract "p" tree)[1]? = some record := by decide
  obtain ⟨site, head, found, htree, -, -, hrecords, -⟩ := extract_isolated h
  exact ⟨h, site, head, found, htree, hrecords⟩

end CodeIndex.Php
