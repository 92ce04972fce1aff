import CodeIndex.Proofs.Php.Isolation
import CodeIndex.Proofs.Php.Spelling

/-!
# The names of parameters and properties

Every parameter and every property of a tree is spelled as a variable, wherever it stands in the
source and whatever else is read around it.  So each name that is recorded is what is recorded of a
spelling: the identifier, unless something separates it from its markers.

* `parameter_isSpelled`, `member_isSpelled` : what one reader preserves.
* `spelledTo` : all nodes of a reading are spelled, by induction on the steps.
* `parseTree_isSpelled` : so it is in the tree of every source.
* `namedBy_of_isSpelled` : the names in the records of a spelled tree.
* `parseDeclarations_names` : the names of every record.
-/

namespace CodeIndex.Php

/-! ## Parts -/

/-- The name of a parameter is a variable; only a promoted parameter has its ampersand in it. -/
def ParameterNode.IsSpelled (p : ParameterNode) : Prop :=
  ∃ v : VariableSpelling, p.writtenName.toList = v.text ∧ (p.form ≠ .promoted → v.reference = none)

/-- The names of the elements of a property declaration are variables. -/
def PropertyNode.IsSpelled (p : PropertyNode) : Prop :=
  ∀ e ∈ p.elements, ∃ v : VariableSpelling, e.1.toList = v.text ∧ v.reference = none

/-- A parameter that is read is spelled. -/
theorem parameter_isSpelled {fuel : Nat} {ts : List Tree} {part : ParameterPart}
    (h : parameter fuel ts = some part) : part.node.IsSpelled := by
  simp only [parameter] at h
  split at h
  · cases h
  · rename_i name rest hname
    obtain ⟨plain, hnone, hplain, -⟩ := exists_spelling hname
    obtain ⟨marked, hmarked⟩ := exists_spelling_reference rfl hname
    cases h
    by_cases hpromoted : (!(Lead.among promotes ts).modifiers.isEmpty) = true
    · refine ⟨marked, ?_, fun hform => absurd ?_ hform⟩
      · simp only [hpromoted, if_true]
        exact hmarked
      · simp only [hpromoted, if_true]
    · refine ⟨plain, ?_, fun _ => hnone⟩
      simp only [hpromoted]
      exact hplain

/-- Every parameter of a list is spelled. -/
theorem parametersFrom_isSpelled {fuel : Nat} {ts : List Tree} :
    ∀ part ∈ (parametersFrom fuel ts).1, part.node.IsSpelled := by
  induction fuel generalizing ts with
  | zero => simp [parametersFrom]
  | succ fuel ih =>
      rw [parametersFrom]
      split
      · simp
      · split
        · exact ih
        · split
          · exact ih
          · rename_i part hpart
            exact List.forall_mem_cons.mpr ⟨parameter_isSpelled hpart, ih⟩

/-- Every parameter of a method head is spelled. -/
theorem methodHead_isSpelled {mods : List Modifier} {ts : List Tree} {part : HeadPart}
    (h : methodHead mods ts = some part) : ∀ p ∈ part.head.parameters, p.IsSpelled := by
  rw [methodHead] at h
  split at h
  · split at h
    · cases h
    · simp only [Option.bind_eq_bind, Option.bind_eq_some_iff] at h
      obtain ⟨⟨inside, rest⟩, -, h⟩ := h
      cases h
      intro p hp
      obtain ⟨part, hpart, rfl⟩ := List.mem_map.mp hp
      exact parametersFrom_isSpelled part hpart
  · cases h

/-- Every element of a property declaration is a variable without ampersand. -/
theorem propertyElements_isSpelled {fuel : Nat} {ts : List Tree} {read : Elements}
    (h : propertyElements fuel ts = some read) :
    ∀ e ∈ read.elements, ∃ v : VariableSpelling, e.1.toList = v.text ∧ v.reference = none := by
  induction fuel generalizing ts read with
  | zero => cases h
  | succ fuel ih =>
      rw [propertyElements] at h
      split at h
      · cases h
      · rename_i name rest hname
        obtain ⟨v, hnone, htext, -⟩ := exists_spelling hname
        have hone : ∀ value : Option Expr, ∀ e ∈ [(treeText name, value)],
            ∃ v : VariableSpelling, e.1.toList = v.text ∧ v.reference = none := by
          intro value e he
          rw [List.mem_singleton] at he
          exact ⟨v, by rw [he, htext], hnone⟩
        simp only at h
        split at h
        · split at h
          · cases h
            exact hone _
          · split at h
            · split at h
              · rename_i more hmore
                cases h
                exact List.forall_mem_cons.mpr ⟨⟨v, htext, hnone⟩, ih hmore⟩
              · cases h
                exact hone _
            · cases h
              exact hone _
        · cases h
          exact hone _

/-- The names that a member part writes are variables. -/
def MemberPart.IsSpelled : MemberPart → Prop
  | .method head _ => ∀ p ∈ head.parameters, p.IsSpelled
  | .property node _ => node.IsSpelled
  | _ => True

/-- A method that is read is spelled. -/
theorem method_isSpelled {lead : Lead} {ts : List Tree} {piece : Piece MemberPart}
    (h : method lead ts = some piece) : piece.part.IsSpelled := by
  rw [method] at h
  split at h
  · cases h
  · rename_i part hpart
    have hspelled := methodHead_isSpelled hpart
    simp only at h
    split at h
    · split at h
      · cases h
        exact hspelled
      · split at h
        · cases h
        · cases h
          exact hspelled
    · cases h
      exact hspelled

/-- **Every member is spelled**, whatever it is read from. -/
theorem member_isSpelled {fuel : Nat} {ts : List Tree} {piece : Piece MemberPart}
    (h : member fuel ts = some piece) : piece.part.IsSpelled := by
  simp only [member] at h
  split at h
  · cases h
  · split at h
    · rw [traitUse, Option.map_eq_some_iff] at h
      obtain ⟨⟨names, rest⟩, -, rfl⟩ := h
      simp only
      split
      · split <;> trivial
      · trivial
    · split at h
      · exact method_isSpelled h
      · split at h
        · cases h
          trivial
        · split at h
          · cases h
            trivial
          · simp only [property, Option.map_eq_some_iff] at h
            obtain ⟨read, hread, rfl⟩ := h
            exact propertyElements_isSpelled hread

/-! ## Nodes -/

mutual

/-- Every variable that a node writes is spelled. -/
inductive Node.IsSpelled : Node → Prop
  | comment (text : String) : Node.IsSpelled (.comment text)
  | spaceStatement (name : String) : Node.IsSpelled (.spaceStatement name)
  | spaceBlock (name : String) {body : List Node} (h : ∀ node ∈ body, Node.IsSpelled node) :
      Node.IsSpelled (.spaceBlock name body)
  | classLike (head : ClassHead) {members : List Member}
      (h : ∀ member ∈ members, Member.IsSpelled member) : Node.IsSpelled (.classLike head members)
  | other {children : List Node} (h : ∀ node ∈ children, Node.IsSpelled node) :
      Node.IsSpelled (.other children)

/-- Every variable that a member writes is spelled. -/
inductive Member.IsSpelled : Member → Prop
  | comment (text : String) : Member.IsSpelled (.comment text)
  | method {head : MethodHead} {body : List Node} (hhead : ∀ p ∈ head.parameters, p.IsSpelled)
      (hbody : ∀ node ∈ body, Node.IsSpelled node) : Member.IsSpelled (.method head body)
  | property {node : PropertyNode} (h : node.IsSpelled) : Member.IsSpelled (.property node)
  | constants (node : ConstantNode) : Member.IsSpelled (.constants node)
  | traitUse (names : List String) : Member.IsSpelled (.traitUse names)
  | other {children : List Node} (h : ∀ node ∈ children, Node.IsSpelled node) :
      Member.IsSpelled (.other children)

end

/-- All readers give spelled nodes within so many steps. -/
structure SpelledTo (fuel : Nat) : Prop where
  statements : ∀ ts, ∀ node ∈ (statementNodes fuel ts).1, node.IsSpelled
  statement : ∀ part, (statementNode fuel part).1.IsSpelled
  members : ∀ ts, ∀ member ∈ (memberNodes fuel ts).1, member.IsSpelled
  parts : ∀ part : MemberPart, part.IsSpelled →
    ∀ member ∈ (memberParts fuel part).1, member.IsSpelled
  inner : ∀ groups, ∀ node ∈ (innerNodes fuel groups).1, node.IsSpelled
  role : ∀ role ts, ∀ node ∈ (roleNodes fuel role ts).1, node.IsSpelled

/-- The nodes in a spelled member are spelled. -/
theorem Member.IsSpelled.nodes {member : Member} (h : member.IsSpelled) :
    ∀ node ∈ member.nodes, node.IsSpelled := by
  cases h with
  | method _ hbody => exact hbody
  | other hchildren => exact hchildren
  | _ => simp [Member.nodes]

/-- **All that is read is spelled.** -/
theorem spelledTo (fuel : Nat) : SpelledTo fuel := by
  induction fuel with
  | zero =>
      refine ⟨?_, ?_, ?_, ?_, ?_, ?_⟩
      · simp [statementNodes]
      · intro part
        simpa [statementNode] using .other (by simp)
      · simp [memberNodes]
      · simp [memberParts]
      · simp [innerNodes]
      · simp [roleNodes]
  | succ fuel ih =>
      refine ⟨?_, ?_, ?_, ?_, ?_, ?_⟩
      · intro ts
        cases ts with
        | nil => simp [statementNodes]
        | cons t rest =>
            rw [statementNodes]
            split
            · exact List.forall_mem_cons.mpr ⟨.comment _, ih.statements rest⟩
            · split
              · exact List.forall_mem_cons.mpr ⟨.other (by simp), ih.statements rest⟩
              · split
                · exact List.forall_mem_cons.mpr ⟨ih.statement _, ih.statements _⟩
                · exact List.forall_mem_cons.mpr ⟨.other (ih.inner _), ih.statements rest⟩
      · intro part
        cases part with
        | spaceStatement name => exact .spaceStatement name
        | spaceBlock name body => exact .spaceBlock name (ih.statements body)
        | classLike head body => exact .classLike head (ih.members body)
        | other inner => exact .other (ih.inner inner)
      · intro ts
        cases ts with
        | nil => simp [memberNodes]
        | cons t rest =>
            rw [memberNodes]
            split
            · exact List.forall_mem_cons.mpr ⟨.comment _, ih.members rest⟩
            · split
              · exact List.forall_mem_cons.mpr ⟨.other (by simp), ih.members rest⟩
              · split
                · rename_i piece hpiece
                  exact List.forall_mem_append.mpr
                    ⟨ih.parts _ (member_isSpelled hpiece), ih.members _⟩
                · exact List.forall_mem_cons.mpr ⟨.other (ih.inner _), ih.members rest⟩
      · intro part hpart
        cases part with
        | method head inner =>
            exact List.forall_mem_singleton.mpr (.method hpart (ih.inner inner))
        | property node inner =>
            exact List.forall_mem_cons.mpr
              ⟨.property hpart, List.forall_mem_singleton.mpr (.other (ih.inner inner))⟩
        | constants node inner =>
            exact List.forall_mem_cons.mpr
              ⟨.constants node, List.forall_mem_singleton.mpr (.other (ih.inner inner))⟩
        | traitUse names => exact List.forall_mem_singleton.mpr (.traitUse names)
        | enumCase inner => exact List.forall_mem_singleton.mpr (.other (ih.inner inner))
      · intro groups
        cases groups with
        | nil => simp [innerNodes]
        | cons group rest =>
            exact List.forall_mem_cons.mpr ⟨.other (ih.role _ _), ih.inner rest⟩
      · intro role ts
        cases role with
        | statements => exact ih.statements ts
        | members =>
            intro node hnode
            obtain ⟨member, hmember, hnode⟩ := List.mem_flatMap.mp hnode
            exact (ih.members ts member hmember).nodes node hnode
        | terms => exact ih.inner _
        | parameters => exact ih.inner _
        | hooks => exact ih.inner _

/-! ## Trees -/

/-- Every reading of a source is spelled. -/
theorem ofChoices_isSpelled (choices : List Nat) (source : String) :
    ∀ node ∈ (Reading.ofChoices choices source).nodes, node.IsSpelled :=
  List.forall_mem_cons.mpr ⟨.other (by simp), (spelledTo _).statements _⟩

/-- The search ends in a spelled reading if it starts from one. -/
theorem search_isSpelled (source : String) (fuel : Nat) {best : Reading} (last : Reading)
    (h : ∀ node ∈ best.nodes, node.IsSpelled) :
    ∀ node ∈ (Reading.search source fuel best last).nodes, node.IsSpelled := by
  induction fuel generalizing best last with
  | zero => exact h
  | succ fuel ih =>
      rw [Reading.search]
      split
      · exact h
      · refine ih _ ?_
        split
        · exact ofChoices_isSpelled _ source
        · exact h

/-- **Every variable of a source is spelled.** -/
theorem parseTree_isSpelled (source : String) : ∀ node ∈ parseTree source, node.IsSpelled :=
  search_isSpelled source readingLimit _ (ofChoices_isSpelled [] source)

/-- In a spelled tree the node at every site is spelled. -/
theorem Site.isSpelled {node : Node} (site : Site)
    (h : ∀ other ∈ site.fill node, other.IsSpelled) : node.IsSpelled := by
  induction site with
  | here left right => exact h node (by simp [fill])
  | inOther left inner right ih =>
      cases h (.other (inner.fill node)) (by simp [fill]) with
      | other hchildren => exact ih hchildren
  | inBlock left name inner right ih =>
      cases h (.spaceBlock name (inner.fill node)) (by simp [fill]) with
      | spaceBlock _ hbody => exact ih hbody

/-! ## Records -/

/-- The names of the parameters and of the properties in a record. -/
def variablesOf (d : Declaration) : List String :=
  (d.methods.flatMap fun m => m.parameters.map Parameter.name) ++ d.properties.map Property.name

/-- A member writes a variable: the name of a property, or that of a parameter, with its ampersand
if the parameter is promoted. -/
inductive Member.Writes : Member → VariableSpelling → Prop
  | parameter {head : MethodHead} {body : List Node} {p : ParameterNode} {v : VariableSpelling}
      (hp : p ∈ head.parameters) (htext : p.writtenName.toList = v.text)
      (hform : p.form ≠ .promoted → v.reference = none) : Member.Writes (.method head body) v
  | property {node : PropertyNode} {e : String × Option Expr} {v : VariableSpelling}
      (he : e ∈ node.elements) (htext : e.1.toList = v.text) (hreference : v.reference = none) :
      Member.Writes (.property node) v

/-- A name is recorded of a variable: its identifier alone exactly if nothing separates that from
the markers, and then no marker and no separator is in it. -/
structure Records (v : VariableSpelling) (name : String) : Prop where
  name_eq : name.toList = v.recorded
  isIdentifier_iff : isIdentifier name.toList = true ↔ v.IsTight
  bare : v.IsTight → name.toList = v.name ∧
    ∀ c ∈ name.toList, c ≠ '$' ∧ c ≠ '&' ∧ c ≠ '.' ∧ isGap c = false

/-- The name that is recorded of a written variable is the one of `Records`. -/
theorem records_variableName {written : String} {v : VariableSpelling}
    (h : written.toList = v.text) : Records v (variableName written) := by
  have hname : (variableName written).toList = v.recorded := by
    rw [← String.ofList_toList (s := written), h, v.variableName_text, String.toList_ofList]
  refine ⟨hname, by rw [hname, v.isIdentifier_recorded_iff], fun htight => ?_⟩
  rw [hname, VariableSpelling.recorded_of_isTight htight]
  exact ⟨rfl, plain_of_isIdentifier v.isIdentifier_name⟩

/-- Doc blocks are put beside members and add none. -/
theorem mem_of_mem_withDocs {seen : List (Option String)} {members : List Member}
    {entry : Member × Option String} (h : entry ∈ withDocs seen members) : entry.1 ∈ members := by
  induction members generalizing seen with
  | nil => cases h
  | cons member members ih =>
      rw [withDocs] at h
      rcases List.mem_cons.mp h with rfl | h
      · exact List.mem_cons_self
      · exact List.mem_cons_of_mem _ (ih h)

/-- The parameter of a spelled method writes the variable that is recorded of it. -/
theorem exists_writes_parameter {head : MethodHead} {body : List Node} {p : ParameterNode}
    (h : (Member.method head body).IsSpelled) (hp : p ∈ head.parameters) :
    ∃ v, (Member.method head body).Writes v ∧ Records v (variableName p.writtenName) := by
  cases h with
  | method hhead hbody =>
      obtain ⟨v, htext, hform⟩ := hhead p hp
      exact ⟨v, .parameter hp htext hform, records_variableName htext⟩

/-- The names of a record are recorded of variables that its members write. -/
theorem exists_writes {path space : String} {doc : Option String} {head : ClassHead}
    {members : List Member} (h : ∀ member ∈ members, member.IsSpelled) :
    ∀ name ∈ variablesOf (declare path space doc head members),
      ∃ member ∈ members, ∃ v, member.Writes v ∧ Records v name := by
  intro name hname
  rcases List.mem_append.mp hname with hname | hname
  · obtain ⟨m, hm, hname⟩ := List.mem_flatMap.mp hname
    obtain ⟨⟨member, memberDoc⟩, hentry, hm⟩ := List.mem_flatMap.mp hm
    have hmember := mem_of_mem_withDocs hentry
    cases member with
    | method mhead body =>
        obtain rfl := List.mem_singleton.mp hm
        obtain ⟨parameter, hparameter, rfl⟩ := List.mem_map.mp hname
        obtain ⟨p, hp, rfl⟩ := List.mem_map.mp hparameter
        exact ⟨_, hmember, exists_writes_parameter (h _ hmember) hp⟩
    | _ => cases hm
  · obtain ⟨q, hq, rfl⟩ := List.mem_map.mp hname
    obtain ⟨⟨member, memberDoc⟩, hentry, hq⟩ := List.mem_flatMap.mp hq
    have hmember := mem_of_mem_withDocs hentry
    cases member with
    | method mhead body =>
        simp only [propertiesOf] at hq
        split at hq
        · obtain ⟨p, hp, hpromoted⟩ := List.mem_filterMap.mp hq
          rw [ParameterNode.property?] at hpromoted
          split at hpromoted
          · cases hpromoted
            exact ⟨_, hmember, exists_writes_parameter (h _ hmember) hp⟩
          · cases hpromoted
        · cases hq
    | property node =>
        obtain ⟨e, he, rfl⟩ := List.mem_map.mp hq
        cases h _ hmember with
        | property hnode =>
            obtain ⟨v, htext, hreference⟩ := hnode e he
            exact ⟨_, hmember, v, .property he htext hreference, records_variableName htext⟩
    | _ => cases hq

/-- A declaration is found at a site of the tree, and each name of a parameter or a property in its
record is recorded of a variable that a direct member writes. -/
def NamedBy (path : String) (tree : List Node) (d : Declaration) : Prop :=
  ∃ (site : Site) (head : ClassHead) (members : List Member),
    tree = site.fill (.classLike head members) ∧ d = declare path site.space d.doc head members ∧
    ∀ name ∈ variablesOf d, ∃ member ∈ members, ∃ v, member.Writes v ∧ Records v name

/-- In a spelled tree, wherever it was read from, all names are those of its variables. -/
theorem namedBy_of_isSpelled {path : String} {tree : List Node}
    (h : ∀ node ∈ tree, node.IsSpelled) {d : Declaration} (hd : d ∈ extract path tree) :
    NamedBy path tree d := by
  obtain ⟨site, head, members, htree, rfl⟩ := exists_site_of_mem_extract hd
  have hnode : (Node.classLike head members).IsSpelled := site.isSpelled (htree ▸ h)
  refine ⟨site, head, members, htree, rfl, ?_⟩
  cases hnode with
  | classLike _ hmembers => exact exists_writes hmembers

/-- **The names of parameters and properties.**  Each one in the records of a spelled tree is
recorded of a variable that a direct member writes.  It is the identifier of the variable, whatever
markers stand in front, exactly if nothing separates the name from its dollar sign, nor that from
the ampersand of a promoted parameter; what does so stays in the name that is recorded.  The tree of
every source is spelled, so this holds of the declarations of every source. -/
theorem parseDeclarations_names (path : String) :
    (∀ tree : List Node, (∀ node ∈ tree, node.IsSpelled) →
      ∀ d ∈ extract path tree, NamedBy path tree d) ∧
    ∀ source, (∀ node ∈ parseTree source, node.IsSpelled) ∧
      ∀ d ∈ parseDeclarations path source, NamedBy path (parseTree source) d := by
  refine ⟨fun tree htree d => namedBy_of_isSpelled htree, fun source => ?_⟩
  exact ⟨parseTree_isSpelled source, fun d => namedBy_of_isSpelled (parseTree_isSpelled source)⟩

/-- A source with a property, and with parameters that have several markers in front, a comment
among them. -/
def markedSource : String :=
  "<?php\nclass A \x7b private $p; function f($a, int & /* c */ ... $b) \x7b\x7d " ++
    "function __construct(private &$y, public & $z) \x7b\x7d \x7d\n"

/-- All of its names are bare but one, which has a blank behind the ampersand. -/
theorem parseDeclarations_names_marked :
    (∀ node ∈ parseTree markedSource, node.IsSpelled) ∧
      ∃ d ∈ extract "A.php" (parseTree markedSource),
        variablesOf d = ["a", "b", "y", " $z", "p", "y", " $z"] ∧
        NamedBy "A.php" (parseTree markedSource) d := by
  have hfirst : ∃ d ∈ extract "A.php" (parseTree markedSource),
      variablesOf d = ["a", "b", "y", " $z", "p", "y", " $z"] := by
    decide +kernel
  obtain ⟨hnamed, hparsed⟩ := parseDeclarations_names "A.php"
  obtain ⟨hspelled, -⟩ := hparsed markedSource
  obtain ⟨d, hd, hnames⟩ := hfirst
  exact ⟨hspelled, d, hd, hnames, hnamed _ hspelled d hd⟩

/-- A source with a promoted parameter by reference, and a blank behind its ampersand. -/
def spacedReference : String :=
  "<?php\nclass A \x7b function __construct(public & $x) \x7b\x7d \x7d\n"

/-- Names that are not bare: without a fault in the source, the blank and the dollar sign are in the
names of the parameter and of the property. -/
theorem parseDeclarations_names_spaced :
    (Reading.ofChoices [] spacedReference).fault = none ∧
      (parseDeclarations "A.php" spacedReference).flatMap variablesOf = [" $x", " $x"] ∧
      ' ' ∈ " $x".toList ∧ '$' ∈ " $x".toList := by
  decide +kernel

end CodeIndex.Php
