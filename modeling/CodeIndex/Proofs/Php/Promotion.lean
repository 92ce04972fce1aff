import CodeIndex.Proofs.Php.Isolation

/-!
# Promoted properties

A constructor's parameters are read twice: once for its parameter list, and once for the properties
that some of them declare.  Both readings run along the same parameters, so each promoted property
is the image of its entry in the list.  Parameters of other methods declare no property, and a
property declaration gives one property for each of its elements.

* `mirrors_record` : the properties of a constructor against its parameter list.
* `declares_flatMap` : the methods and properties of a class body, member by member.
* `extract_promotes` : so it is in every record of a tree.
-/

namespace CodeIndex.Php

/-- Properties mirror a parameter list: one for each promoted parameter, in the order of the list,
with the name, the type and the default value of its entry, the visibility that is written in front
of it, not static and without a doc block. -/
inductive Mirrors : List ParameterNode → List Parameter → List Property → Prop
  | nil : Mirrors [] [] []
  | promoted {node : ParameterNode} {nodes : List ParameterNode} {parameter : Parameter}
      {parameters : List Parameter} {property : Property} {properties : List Property}
      (hform : node.form = .promoted) (hparameter : RecordsParameter node parameter)
      (hname : property.name = parameter.name)
      (htype : property.type = parameter.type) (hdefault : property.default = parameter.default)
      (hvisibility : Grants node.modifiers property.visibility)
      (hstatic : property.isStatic = false) (hdoc : property.doc = none)
      (hrest : Mirrors nodes parameters properties) :
      Mirrors (node :: nodes) (parameter :: parameters) (property :: properties)
  | plain {node : ParameterNode} {nodes : List ParameterNode} {parameter : Parameter}
      {parameters : List Parameter} {properties : List Property}
      (hform : node.form ≠ .promoted) (hparameter : RecordsParameter node parameter)
      (hrest : Mirrors nodes parameters properties) :
      Mirrors (node :: nodes) (parameter :: parameters) properties

/-- The methods and the properties that a class body declares, member by member, each behind its
doc block: a method gives itself, a property declaration gives its elements, and a constructor gives
properties that mirror its parameter list as well. -/
inductive Declares : List (Member × Option String) → List Method → List Property → Prop
  | nil : Declares [] [] []
  | property {node : PropertyNode} {doc : Option String} {own : List Property}
      {members : List (Member × Option String)} {methods : List Method}
      {properties : List Property}
      (helements : List.Forall₂ (RecordsProperty node doc) node.elements own)
      (hrest : Declares members methods properties) :
      Declares ((.property node, doc) :: members) methods (own ++ properties)
  | constructor {head : MethodHead} {body : List Node} {doc : Option String} {method : Method}
      {promoted : List Property} {members : List (Member × Option String)} {methods : List Method}
      {properties : List Property} (hconstructor : IsConstructorName head.name)
      (hmethod : RecordsMethod head doc method)
      (hmirrors : Mirrors head.parameters method.parameters promoted)
      (hrest : Declares members methods properties) :
      Declares ((.method head body, doc) :: members) (method :: methods) (promoted ++ properties)
  | method {head : MethodHead} {body : List Node} {doc : Option String} {method : Method}
      {members : List (Member × Option String)} {methods : List Method}
      {properties : List Property} (hconstructor : ¬IsConstructorName head.name)
      (hmethod : RecordsMethod head doc method) (hrest : Declares members methods properties) :
      Declares ((.method head body, doc) :: members) (method :: methods) properties
  | other {member : Member} {doc : Option String} {members : List (Member × Option String)}
      {methods : List Method} {properties : List Property}
      (hmethod : ∀ head body, member ≠ .method head body)
      (hproperty : ∀ node, member ≠ .property node)
      (hrest : Declares members methods properties) :
      Declares ((member, doc) :: members) methods properties

/-- **The two readings of a parameter list agree.** -/
theorem mirrors_record (nodes : List ParameterNode) :
    Mirrors nodes (nodes.map ParameterNode.record) (nodes.filterMap ParameterNode.property?) := by
  induction nodes with
  | nil => exact .nil
  | cons node nodes ih =>
      have hparameter := recordsParameter_record node
      by_cases hform : node.form = .promoted
      · have hproperty : node.property? = some {
            name := variableName node.writtenName
            visibility := visibilityOf node.modifiers
            type := node.type
            default := node.default.map Expr.render } := by
          simp [ParameterNode.property?, hform]
        rw [List.filterMap_cons_some hproperty]
        exact .promoted hform hparameter rfl rfl rfl (grants_visibilityOf node.modifiers) rfl rfl ih
      · have hproperty : node.property? = none := by simp [ParameterNode.property?, hform]
        rw [List.filterMap_cons_none hproperty]
        exact .plain hform hparameter ih

/-- The members of a body declare the methods and properties that are read off them. -/
theorem declares_flatMap (entries : List (Member × Option String)) :
    Declares entries (entries.flatMap methodsOf) (entries.flatMap propertiesOf) := by
  induction entries with
  | nil => exact .nil
  | cons entry entries ih =>
      rw [List.flatMap_cons, List.flatMap_cons]
      obtain ⟨member, doc⟩ := entry
      cases member with
      | method head body =>
          have hmethod := recordsMethod_record head doc
          have hname : (head.record doc).isConstructor = true ↔ IsConstructorName head.name :=
            isConstructorName_iff
          rw [propertiesOf]
          by_cases hconstructor : IsConstructorName head.name
          · rw [if_pos (hname.mpr hconstructor)]
            exact .constructor hconstructor hmethod (mirrors_record head.parameters) ih
          · rw [if_neg (mt hname.mp hconstructor)]
            exact .method hconstructor hmethod ih
      | property node => exact .property (recordsProperty_records node doc) ih
      | comment text => exact .other (by simp) (by simp) ih
      | constants node => exact .other (by simp) (by simp) ih
      | traitUse names => exact .other (by simp) (by simp) ih
      | other children => exact .other (by simp) (by simp) ih

/-- **Promoted properties mirror constructor parameters.**  The methods and properties of every
class body are those that its members declare, in their order: the elements of each property
declaration, and at each constructor one property for each promoted parameter, with the name, the
type and the default value of its entry in the recorded parameter list.  Every record of a tree is
that of such a body. -/
theorem extract_promotes (path : String) :
    (∀ (space : String) (doc : Option String) (head : ClassHead) (members : List Member),
      Declares (documented members) (declare path space doc head members).methods
        (declare path space doc head members).properties) ∧
    ∀ tree, ∀ d ∈ extract path tree, ∃ (site : Site) (head : ClassHead) (members : List Member),
      tree = site.fill (.classLike head members) ∧ d = declare path site.space d.doc head members ∧
        Declares (documented members) d.methods d.properties := by
  have hbody : ∀ (space : String) (doc : Option String) (head : ClassHead) (members : List Member),
      Declares (documented members) (declare path space doc head members).methods
        (declare path space doc head members).properties := by
    intro space doc head members
    have hdocs : withDocs [] members = documented members := withDocs_eq members
    rw [← hdocs]
    exact declares_flatMap _
  refine ⟨hbody, ?_⟩
  intro tree d hd
  obtain ⟨site, head, members, rfl, rfl⟩ := exists_site_of_mem_extract hd
  exact ⟨site, head, members, rfl, rfl, hbody _ _ head members⟩

/-- A constructor with a promoted parameter between two plain ones, a method with a promoted
parameter, which declares nothing, and a property declaration with two elements. -/
theorem extract_promotes_one :
    let tree : List Node := [.classLike { name := "A" } [
      .method { name := "__CONSTRUCT", parameters := [
        { writtenName := "$a" },
        { writtenName := "&$b", form := .promoted, modifiers := [.access .priv], type := some "int",
          default := some (.scalar "1") },
        { writtenName := "$c", form := .variadic }] } [],
      .method { name := "f", parameters := [
        { writtenName := "$d", form := .promoted, modifiers := [.access .pub] }] } [],
      .property { modifiers := [.static], elements := [("$e", none), ("$f", some .other)] }]]
    let d : Declaration :=
      { name := "A", space := "", qualifiedName := "A", path := "p",
        methods := [
          { name := "__CONSTRUCT", parameters := [
            { name := "a" },
            { name := "b", type := some "int", default := some "1", isByReference := true },
            { name := "c", isVariadic := true }] },
          { name := "f", parameters := [{ name := "d" }] }],
        properties := [
          { name := "b", visibility := .priv, type := some "int", default := some "1" },
          { name := "e", isStatic := true },
          { name := "f", isStatic := true, default := some "..." }] }
    d ∈ extract "p" tree ∧ ∃ (site : Site) (head : ClassHead) (members : List Member),
      tree = site.fill (.classLike head members) ∧ d = declare "p" site.space d.doc head members ∧
        Declares (documented members) d.methods d.properties := by
  intro tree d
  have hmem : d ∈ extract "p" tree := by decide
  exact ⟨hmem, (extract_promotes "p").2 tree d hmem⟩

end CodeIndex.Php
