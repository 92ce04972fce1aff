import Mathlib.Data.List.Forall2
import CodeIndex.Php.Extract
import CodeIndex.Proofs.Text.LetterCase
import CodeIndex.Proofs.Text.Pieces
import CodeIndex.Proofs.Text.Strip

/-!
# What is recorded of members

What a record has to hold of each member of a class body, said of the member and the record alone:
one method for a method, with one parameter for each of its own; one property for each element of a
property declaration, or for each promoted parameter of a constructor; one constant for each
element of a constant declaration; one name for each trait that is used.  What is read off a list of
members is put together from what the members give, in their order, so nothing is lost and nothing
comes twice.

* `isVariableName_variableName`, `shows_render`, `grants_visibilityOf` : names, values, visibilities.
* `recordsParameter_record`, `recordsMethod_record` : one record.
* `givesMethods_methodsOf`, `givesProperties_propertiesOf`, `givesConstants_constantsOf`,
  `givesTraits_traitsOf` : what is read off one member.
* `collected_flatMap` : what is read off them all.
-/

namespace CodeIndex.Php

open Text

/-! ## Names, values and visibilities -/

/-- The name of a written variable: what stands behind all ampersands, then behind all points in
threes, then behind all dollar signs. -/
def IsVariableName (written name : String) : Prop :=
  ∃ unreferenced unpacked, IsBehind ['&'] written.toList unreferenced ∧
    IsBehind ['.', '.', '.'] unreferenced unpacked ∧ IsBehind ['$'] unpacked name.toList

/-- A listed name: what stands behind all backslashes. -/
def IsBareName (written name : String) : Prop := IsBehind ['\\'] written.toList name.toList

/-- What is shown of an expression: a literal and a signed number as they are written, and three
points in place of anything else. -/
inductive Shows : Expr → String → Prop
  | scalar (text : String) : Shows (.scalar text) text
  | signed {text : String} (hsign : ['-'] <+: text.toList ∨ ['+'] <+: text.toList) :
      Shows (.unary text true) text
  | unary {text : String} {onNumber : Bool}
      (hsign : onNumber = true → ¬(['-'] <+: text.toList ∨ ['+'] <+: text.toList)) :
      Shows (.unary text onNumber) "..."
  | other : Shows .other "..."

/-- A visibility keyword, with or without a limit to writing. -/
def Modifier.IsAccess (m : Modifier) : Prop := ∃ level, m = .access level ∨ m = .setAccess level

/-- The visibility that modifiers grant: that of the first visibility keyword among them, unless
this one is limited to writing; without any it is public. -/
inductive Grants : List Modifier → Visibility → Prop
  | access {front back : List Modifier} {level : Visibility} (hfront : ∀ m ∈ front, ¬m.IsAccess) :
      Grants (front ++ .access level :: back) level
  | setAccess {front back : List Modifier} {level : Visibility} (hfront : ∀ m ∈ front, ¬m.IsAccess) :
      Grants (front ++ .setAccess level :: back) .pub
  | none {modifiers : List Modifier} (hnone : ∀ m ∈ modifiers, ¬m.IsAccess) : Grants modifiers .pub

/-- The name that is read off a written variable is its name. -/
theorem isVariableName_variableName (written : String) :
    IsVariableName written (variableName written) := by
  refine ⟨_, _, isBehind_dropWhile '&' _, isBehind_stripAll (by simp) _, ?_⟩
  rw [variableName, String.toList_ofList]
  exact isBehind_dropWhile '$' _

/-- A written variable has one name. -/
theorem IsVariableName.unique {written name other : String} (h : IsVariableName written name)
    (h' : IsVariableName written other) : name = other := by
  obtain ⟨unreferenced, unpacked, hreference, hpoints, hname⟩ := h
  obtain ⟨unreferenced', unpacked', hreference', hpoints', hname'⟩ := h'
  obtain rfl := hreference.unique hreference'
  obtain rfl := hpoints.unique hpoints'
  exact String.toList_inj.mp (hname.unique hname')

/-- A listed name is read without its backslashes. -/
theorem isBareName_bareName (written : String) : IsBareName written (bareName written) := by
  rw [IsBareName, bareName, String.toList_ofList]
  exact isBehind_dropWhile '\\' _

/-- An expression is rendered as it is to be shown. -/
theorem shows_render (e : Expr) : Shows e e.render := by
  cases e with
  | scalar text => exact .scalar text
  | other => exact .other
  | unary text onNumber =>
      simp only [Expr.render, Bool.and_eq_true, Bool.or_eq_true, startsWith_iff]
      split
      · rename_i h
        obtain ⟨rfl, hsign⟩ := h
        exact .signed hsign
      · rename_i h
        exact .unary fun hnumber hsign => h ⟨hnumber, hsign⟩

/-- So is an optional one. -/
theorem shows_map_render (value : Option Expr) : Option.Rel Shows value (value.map Expr.render) := by
  cases value with
  | none => exact .none
  | some e => exact .some (shows_render e)

/-- One more modifier in front that is no visibility keyword changes nothing. -/
theorem Grants.cons {m : Modifier} {modifiers : List Modifier} {level : Visibility}
    (hm : ¬m.IsAccess) (h : Grants modifiers level) : Grants (m :: modifiers) level := by
  cases h with
  | access hfront => exact .access (List.forall_mem_cons.mpr ⟨hm, hfront⟩)
  | setAccess hfront => exact .setAccess (List.forall_mem_cons.mpr ⟨hm, hfront⟩)
  | none hnone => exact .none (List.forall_mem_cons.mpr ⟨hm, hnone⟩)

/-- The visibility that is read off modifiers is the one that they grant. -/
theorem grants_visibilityOf (modifiers : List Modifier) :
    Grants modifiers (visibilityOf modifiers) := by
  induction modifiers with
  | nil => exact .none (by simp)
  | cons m modifiers ih =>
      cases m with
      | access level => exact @Grants.access [] modifiers level (by simp)
      | setAccess level => exact @Grants.setAccess [] modifiers level (by simp)
      | static | abstract | final | readonly | var =>
          exact .cons (by simp [Modifier.IsAccess]) ih

/-! ## Records -/

/-- The record of a parameter. -/
structure RecordsParameter (node : ParameterNode) (p : Parameter) : Prop where
  name : IsVariableName node.writtenName p.name
  type : p.type = node.type
  default : Option.Rel Shows node.default p.default
  isVariadic : p.isVariadic = true ↔ node.form = .variadic
  isByReference : p.isByReference = true ↔
    ['&'] <+: node.writtenName.toList ∨ node.hasReference = true

/-- The record of a method, behind a doc block or none. -/
structure RecordsMethod (head : MethodHead) (doc : Option String) (m : Method) : Prop where
  name : m.name = head.name
  visibility : Grants head.modifiers m.visibility
  isStatic : m.isStatic = true ↔ Modifier.static ∈ head.modifiers
  isAbstract : m.isAbstract = true ↔ Modifier.abstract ∈ head.modifiers
  parameters : List.Forall₂ RecordsParameter head.parameters m.parameters
  returnType : m.returnType = head.returnType
  doc : m.doc = doc

/-- The record of an element of a property declaration, which is its name and its default. -/
structure RecordsProperty (node : PropertyNode) (doc : Option String)
    (element : String × Option Expr) (p : Property) : Prop where
  name : IsVariableName element.1 p.name
  visibility : Grants node.modifiers p.visibility
  isStatic : p.isStatic = true ↔ Modifier.static ∈ node.modifiers
  type : p.type = node.type
  default : Option.Rel Shows element.2 p.default
  doc : p.doc = doc

/-- The record of the property that a promoted parameter declares: not static, and without a doc
block. -/
structure RecordsPromoted (node : ParameterNode) (p : Property) : Prop where
  name : IsVariableName node.writtenName p.name
  visibility : Grants node.modifiers p.visibility
  isStatic : p.isStatic = false
  type : p.type = node.type
  default : Option.Rel Shows node.default p.default
  doc : p.doc = none

/-- The record of an element of a constant declaration, which is its name and its value. -/
structure RecordsConstant (node : ConstantNode) (doc : Option String)
    (element : String × Option Expr) (c : Constant) : Prop where
  name : c.name = element.1
  value : Option.Rel Shows element.2 c.value
  visibility : Grants node.modifiers c.visibility
  doc : c.doc = doc

/-- Mapping a list records each of its items. -/
theorem forall₂_map {α β : Type} {Rel : α → β → Prop} {f : α → β} (h : ∀ a, Rel a (f a))
    (items : List α) : List.Forall₂ Rel items (items.map f) :=
  List.forall₂_map_right_iff.mpr (List.forall₂_same.mpr fun a _ => h a)

/-- A parameter is recorded. -/
theorem recordsParameter_record (node : ParameterNode) : RecordsParameter node node.record where
  name := isVariableName_variableName node.writtenName
  type := rfl
  default := shows_map_render node.default
  isVariadic := by rw [ParameterNode.record, beq_iff_eq]
  isByReference := by rw [ParameterNode.record, Bool.or_eq_true, startsWith_iff]

/-- A method is recorded with its parameters. -/
theorem recordsMethod_record (head : MethodHead) (doc : Option String) :
    RecordsMethod head doc (head.record doc) where
  name := rfl
  visibility := grants_visibilityOf head.modifiers
  isStatic := by rw [MethodHead.record, List.contains_iff_mem]
  isAbstract := by rw [MethodHead.record, List.contains_iff_mem]
  parameters := forall₂_map recordsParameter_record head.parameters
  returnType := rfl
  doc := rfl

/-- The elements of a property declaration are recorded one by one. -/
theorem recordsProperty_records (node : PropertyNode) (doc : Option String) :
    List.Forall₂ (RecordsProperty node doc) node.elements (node.records doc) :=
  forall₂_map (fun element =>
    { name := isVariableName_variableName element.1
      visibility := grants_visibilityOf node.modifiers
      isStatic := List.contains_iff_mem
      type := rfl
      default := shows_map_render element.2
      doc := rfl }) node.elements

/-- So are those of a constant declaration. -/
theorem recordsConstant_records (node : ConstantNode) (doc : Option String) :
    List.Forall₂ (RecordsConstant node doc) node.elements (node.records doc) :=
  forall₂_map (fun element =>
    { name := rfl
      value := shows_map_render element.2
      visibility := grants_visibilityOf node.modifiers
      doc := rfl }) node.elements

/-- A promoted parameter is recorded as a property, and no other one is. -/
theorem property?_cases (node : ParameterNode) :
    (node.form = .promoted ∧ ∃ p, node.property? = some p ∧ RecordsPromoted node p) ∨
      node.form ≠ .promoted ∧ node.property? = none := by
  by_cases hform : node.form = .promoted
  · refine .inl ⟨hform, _, by rw [ParameterNode.property?, hform]; rfl, ?_⟩
    exact ⟨isVariableName_variableName _, grants_visibilityOf _, rfl, rfl, shows_map_render _, rfl⟩
  · exact .inr ⟨hform, by simp [ParameterNode.property?, hform]⟩

/-- The promoted parameters are recorded one by one. -/
theorem recordsPromoted_filterMap (nodes : List ParameterNode) :
    List.Forall₂ RecordsPromoted (nodes.filter fun node => node.form = .promoted)
      (nodes.filterMap ParameterNode.property?) := by
  induction nodes with
  | nil => exact .nil
  | cons node nodes ih =>
      rcases property?_cases node with ⟨hform, p, hproperty, hrecords⟩ | ⟨hform, hnone⟩
      · rw [List.filter_cons_of_pos (by simpa using hform), List.filterMap_cons_some hproperty]
        exact .cons hrecords ih
      · rw [List.filter_cons_of_neg (by simpa using hform), List.filterMap_cons_none hnone]
        exact ih

/-! ## Members -/

/-- A constructor is named `__construct`, in any case of its ASCII letters. -/
def IsConstructorName (name : String) : Prop :=
  name.toList.map Char.toLower = "__construct".toList

/-- The test for a constructor is the relation. -/
theorem isConstructorName_iff {name : String} :
    sameName name "__construct" = true ↔ IsConstructorName name := sameName_iff

/-- The methods that a member behind a doc block gives: one for a method. -/
inductive GivesMethods : Member × Option String → List Method → Prop
  | method {head : MethodHead} {body : List Node} {doc : Option String} {m : Method}
      (h : RecordsMethod head doc m) : GivesMethods (.method head body, doc) [m]
  | other {member : Member} {doc : Option String} (h : ∀ head body, member ≠ .method head body) :
      GivesMethods (member, doc) []

/-- The properties that a member gives: one for each element of a property declaration, and one
for each promoted parameter of a constructor. -/
inductive GivesProperties : Member × Option String → List Property → Prop
  | property {node : PropertyNode} {doc : Option String} {ps : List Property}
      (h : List.Forall₂ (RecordsProperty node doc) node.elements ps) :
      GivesProperties (.property node, doc) ps
  | constructor {head : MethodHead} {body : List Node} {doc : Option String} {ps : List Property}
      (hname : IsConstructorName head.name)
      (h : List.Forall₂ RecordsPromoted
        (head.parameters.filter fun node => node.form = .promoted) ps) :
      GivesProperties (.method head body, doc) ps
  | method {head : MethodHead} {body : List Node} {doc : Option String}
      (hname : ¬IsConstructorName head.name) : GivesProperties (.method head body, doc) []
  | other {member : Member} {doc : Option String} (hproperty : ∀ node, member ≠ .property node)
      (hmethod : ∀ head body, member ≠ .method head body) : GivesProperties (member, doc) []

/-- The constants that a member gives: one for each element of a constant declaration. -/
inductive GivesConstants : Member × Option String → List Constant → Prop
  | constants {node : ConstantNode} {doc : Option String} {cs : List Constant}
      (h : List.Forall₂ (RecordsConstant node doc) node.elements cs) :
      GivesConstants (.constants node, doc) cs
  | other {member : Member} {doc : Option String} (h : ∀ node, member ≠ .constants node) :
      GivesConstants (member, doc) []

/-- The traits that a member gives: one name for each that is used. -/
inductive GivesTraits : Member × Option String → List String → Prop
  | traitUse {names bare : List String} {doc : Option String}
      (h : List.Forall₂ IsBareName names bare) : GivesTraits (.traitUse names, doc) bare
  | other {member : Member} {doc : Option String} (h : ∀ names, member ≠ .traitUse names) :
      GivesTraits (member, doc) []

/-- What is read of a member as methods is what it gives. -/
theorem givesMethods_methodsOf (entry : Member × Option String) :
    GivesMethods entry (methodsOf entry) := by
  obtain ⟨member, doc⟩ := entry
  cases member with
  | method head body => exact .method (recordsMethod_record head doc)
  | comment | property | constants | traitUse | other => exact .other (by simp)

/-- What is read of a member as properties is what it gives. -/
theorem givesProperties_propertiesOf (entry : Member × Option String) :
    GivesProperties entry (propertiesOf entry) := by
  obtain ⟨member, doc⟩ := entry
  cases member with
  | property node => exact .property (recordsProperty_records node doc)
  | method head body =>
      have hname : (head.record doc).isConstructor = true ↔ IsConstructorName head.name :=
        isConstructorName_iff
      rw [propertiesOf]
      by_cases hconstructor : IsConstructorName head.name
      · rw [if_pos (hname.mpr hconstructor)]
        exact .constructor hconstructor (recordsPromoted_filterMap head.parameters)
      · rw [if_neg (mt hname.mp hconstructor)]
        exact .method hconstructor
  | comment | constants | traitUse | other => exact .other (by simp) (by simp)

/-- What is read of a member as constants is what it gives. -/
theorem givesConstants_constantsOf (entry : Member × Option String) :
    GivesConstants entry (constantsOf entry) := by
  obtain ⟨member, doc⟩ := entry
  cases member with
  | constants node => exact .constants (recordsConstant_records node doc)
  | comment | method | property | traitUse | other => exact .other (by simp)

/-- What is read of a member as used traits is what it gives. -/
theorem givesTraits_traitsOf (entry : Member × Option String) :
    GivesTraits entry (traitsOf entry) := by
  obtain ⟨member, doc⟩ := entry
  cases member with
  | traitUse names => exact .traitUse (forall₂_map isBareName_bareName names)
  | comment | method | property | constants | other => exact .other (by simp)

/-- Items are collected from entries: each entry gives a part, and the parts are put together in
their order. -/
def Collected {α β : Type} (Gives : α → List β → Prop) (entries : List α) (items : List β) : Prop :=
  ∃ parts, List.Forall₂ Gives entries parts ∧ items = parts.flatten

/-- **Nothing is lost, and nothing comes twice**: what is read off each entry in turn is collected
from the entries. -/
theorem collected_flatMap {α β : Type} {Gives : α → List β → Prop} {read : α → List β}
    (h : ∀ entry, Gives entry (read entry)) (entries : List α) :
    Collected Gives entries (entries.flatMap read) :=
  ⟨entries.map read, forall₂_map h entries, List.flatMap_def ..⟩

end CodeIndex.Php
