import CodeIndex.Text.Slice

/-!
# Declarations

The record of one class, interface or trait: its names, its doc block and its
members, and the one-line signatures under which members are shown.

* `qualify_of_no_namespace` : in the global namespace the qualified name is the name.
-/

namespace CodeIndex

/-- The three kinds of declaration that are indexed. -/
inductive DeclarationKind where
  | cls
  | iface
  | trt
  deriving DecidableEq, Repr, Inhabited

/-- The word for a kind in records and answers. -/
def DeclarationKind.word : DeclarationKind → String
  | .cls => "class"
  | .iface => "interface"
  | .trt => "trait"

/-- Who may use a member. -/
inductive Visibility where
  | pub
  | prot
  | priv
  deriving DecidableEq, Repr, Inhabited

/-- The word for a visibility in records and answers. -/
def Visibility.word : Visibility → String
  | .pub => "public"
  | .prot => "protected"
  | .priv => "private"

/-- The visibility a keyword names, in any letter case; every other text is public. -/
def Visibility.ofKeyword (keyword : String) : Visibility :=
  if sameName keyword "protected" then .prot
  else if sameName keyword "private" then .priv
  else .pub

/-- A parameter of a method. -/
structure Parameter where
  name : String
  type : Option String := none
  default : Option String := none
  isVariadic : Bool := false
  isByReference : Bool := false
  deriving DecidableEq, Repr, Inhabited

/-- A method of a declaration. -/
structure Method where
  name : String
  visibility : Visibility := .pub
  isStatic : Bool := false
  isAbstract : Bool := false
  parameters : List Parameter := []
  returnType : Option String := none
  doc : Option String := none
  deriving DecidableEq, Repr, Inhabited

/-- A property of a declaration. -/
structure Property where
  name : String
  visibility : Visibility := .pub
  isStatic : Bool := false
  type : Option String := none
  default : Option String := none
  doc : Option String := none
  deriving DecidableEq, Repr, Inhabited

/-- A constant of a declaration. -/
structure Constant where
  name : String
  value : Option String := none
  visibility : Visibility := .pub
  doc : Option String := none
  deriving DecidableEq, Repr, Inhabited

/-- A class, interface or trait found in a source file. -/
structure Declaration where
  name : String
  space : String
  qualifiedName : String
  kind : DeclarationKind := .cls
  isAbstract : Bool := false
  parent : Option String := none
  interfaces : List String := []
  traits : List String := []
  doc : Option String := none
  methods : List Method := []
  properties : List Property := []
  constants : List Constant := []
  path : String := ""
  deriving DecidableEq, Repr, Inhabited

/-- A name inside a namespace: the namespace without outer backslashes, a backslash and
the name; in the global namespace the name alone. -/
def qualify (space name : String) : String :=
  let inner := Text.trimMatches (· == '\\') space.toList
  if inner.isEmpty then name else String.ofList (inner ++ '\\' :: name.toList)

/-- An optional part of a line, with the text around it. -/
def optionally (part : Option String) (render : String → String) : String :=
  match part with
  | some text => render text
  | none => ""

/-- A parameter as `<type> &...$<name> = <default>`, without what it lacks. -/
def Parameter.signature (p : Parameter) : String :=
  optionally p.type (· ++ " ") ++ (if p.isByReference then "&" else "") ++
    (if p.isVariadic then "..." else "") ++ "$" ++ p.name ++
    optionally p.default (" = " ++ ·)

/-- The constructor is the method named `__construct` in any letter case. -/
def Method.isConstructor (m : Method) : Bool := sameName m.name "__construct"

/-- A method as one line. -/
def Method.signature (m : Method) : String :=
  m.visibility.word ++ (if m.isAbstract then " abstract" else "") ++
    (if m.isStatic then " static" else "") ++ " function " ++ m.name ++ "(" ++
    joinWith ", " (m.parameters.map Parameter.signature) ++ ")" ++
    optionally m.returnType (": " ++ ·)

namespace Declaration

/-- The first constructor among the methods. -/
def constructor? (d : Declaration) : Option Method := d.methods.find? Method.isConstructor

/-- The first method of that name, in any ASCII letter case. -/
def method? (d : Declaration) (name : String) : Option Method :=
  d.methods.find? fun m => sameName m.name name

end Declaration

/-- In the global namespace the qualified name is the name. -/
theorem qualify_of_no_namespace (name : String) : qualify "" name = name := by
  simp [qualify, Text.trimMatches, Text.dropTail]

end CodeIndex
