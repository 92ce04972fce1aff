import CodeIndex.Php.Parser
import CodeIndex.Php.Tree

/-!
# From trees to declarations

The walk visits a tree in document order and carries the namespace in effect.  A
namespace statement applies to what follows it, a namespace block to its own nodes.
Nothing inside a class, interface or trait is visited: its record comes from its
head, its direct members and the comments directly in front of it.
-/

namespace CodeIndex.Php

open Text

/-- Shown in place of a value that is not a literal. -/
def placeholder : String := "..."

/-- Does a comment text start a doc block? -/
def isDocBlock (text : String) : Bool := startsWith ['/', '*', '*'] text.toList

/-- The doc block of a node: the nearest one among the comments directly in front of it.
The siblings in front are given nearest first, by their comment text if they are comments. -/
def docBlock : List (Option String) → Option String
  | [] => none
  | none :: _ => none
  | some text :: rest => if isDocBlock text then some text else docBlock rest

/-- The name of a variable without the markers in front of it. -/
def variableName (written : String) : String :=
  let cs := written.toList.dropWhile (· == '&')
  String.ofList ((stripAll ['.', '.', '.'] cs).dropWhile (· == '$'))

/-- A listed name without leading backslashes. -/
def bareName (written : String) : String := String.ofList (written.toList.dropWhile (· == '\\'))

/-- A literal is shown as written, and so is a signed number; anything else by a
placeholder. -/
def Expr.render : Expr → String
  | .scalar text => text
  | .unary text onNumber =>
    if onNumber && (startsWith ['-'] text.toList || startsWith ['+'] text.toList) then text
    else placeholder
  | .other => placeholder

/-- The first visibility among modifiers counts.  One that is limited to writing leaves
reading public. -/
def visibilityOf : List Modifier → Visibility
  | [] => .pub
  | .access level :: _ => level
  | .setAccess _ :: _ => .pub
  | _ :: rest => visibilityOf rest

/-- The record of a parameter. -/
def ParameterNode.record (p : ParameterNode) : Parameter where
  name := variableName p.writtenName
  type := p.type
  default := p.default.map Expr.render
  isVariadic := p.form == .variadic
  isByReference := startsWith ['&'] p.writtenName.toList || p.hasReference

/-- The property that a promoted parameter declares. -/
def ParameterNode.property? (p : ParameterNode) : Option Property :=
  if p.form == .promoted then
    some {
      name := variableName p.writtenName
      visibility := visibilityOf p.modifiers
      type := p.type
      default := p.default.map Expr.render }
  else none

/-- The record of a method. -/
def MethodHead.record (m : MethodHead) (doc : Option String) : Method where
  name := m.name
  visibility := visibilityOf m.modifiers
  isStatic := m.modifiers.contains .static
  isAbstract := m.modifiers.contains .abstract
  parameters := m.parameters.map ParameterNode.record
  returnType := m.returnType
  doc := doc

/-- The records of a property declaration, one per element. -/
def PropertyNode.records (p : PropertyNode) (doc : Option String) : List Property :=
  p.elements.map fun (written, default) => {
    name := variableName written
    visibility := visibilityOf p.modifiers
    isStatic := p.modifiers.contains .static
    type := p.type
    default := default.map Expr.render
    doc }

/-- The records of a constant declaration, one per element. -/
def ConstantNode.records (c : ConstantNode) (doc : Option String) : List Constant :=
  c.elements.map fun (name, value) => {
    name
    value := value.map Expr.render
    visibility := visibilityOf c.modifiers
    doc }

/-- Each member with its doc block; `before` holds the siblings in front, nearest first. -/
def withDocs (before : List (Option String)) : List Member → List (Member × Option String)
  | [] => []
  | m :: rest => (m, docBlock before) :: withDocs (m.commentText? :: before) rest

/-- The method that a member declares. -/
def methodsOf : Member × Option String → List Method
  | (.method head _, doc) => [head.record doc]
  | _ => []

/-- The properties that a member declares: its own, or those promoted by a constructor. -/
def propertiesOf : Member × Option String → List Property
  | (.property node, doc) => node.records doc
  | (.method head _, doc) =>
    if (head.record doc).isConstructor then head.parameters.filterMap ParameterNode.property?
    else []
  | _ => []

/-- The constants that a member declares. -/
def constantsOf : Member × Option String → List Constant
  | (.constants node, doc) => node.records doc
  | _ => []

/-- The traits that a member uses. -/
def traitsOf : Member × Option String → List String
  | (.traitUse names, _) => names.map bareName
  | _ => []

/-- The record of a class, interface or trait. -/
def declare (path space : String) (doc : Option String) (head : ClassHead)
    (members : List Member) : Declaration :=
  let documented := withDocs [] members
  { name := head.name
    space
    qualifiedName := qualify space head.name
    kind := head.kind
    isAbstract := head.modifiers.contains .abstract
    parent := (head.parents.map bareName).head?
    interfaces := head.interfaces.map bareName
    traits := documented.flatMap traitsOf
    doc
    methods := documented.flatMap methodsOf
    properties := documented.flatMap propertiesOf
    constants := documented.flatMap constantsOf
    path }

/-- A namespace name without outer backslashes. -/
def spaceName (written : String) : String :=
  String.ofList (trimMatches (· == '\\') written.toList)

mutual

/-- Visit one node: the namespace in effect after it and the declarations found.  `before`
holds the siblings in front, nearest first. -/
def walkNode (path : String) (before : List (Option String)) (space : String) :
    Node → String × List Declaration
  | .comment _ => (space, [])
  | .spaceStatement name => (spaceName name, [])
  | .spaceBlock name body => (space, (walkNodes path [] (spaceName name) body).2)
  | .classLike head members => (space, [declare path space (docBlock before) head members])
  | .other children => walkNodes path [] space children

/-- Visit siblings in order. -/
def walkNodes (path : String) (before : List (Option String)) (space : String) :
    List Node → String × List Declaration
  | [] => (space, [])
  | node :: rest =>
    let (space', found) := walkNode path before space node
    let (last, more) := walkNodes path (node.commentText? :: before) space' rest
    (last, found ++ more)

end

/-- The declarations of a tree, in document order. -/
def extract (path : String) (tree : List Node) : List Declaration := (walkNodes path [] "" tree).2

/-- The declarations of a source text, in document order. -/
def parseDeclarations (path source : String) : List Declaration := extract path (parseTree source)

end CodeIndex.Php
