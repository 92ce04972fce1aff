import CodeIndex.Declaration

/-!
# Syntax trees

The shape of a source text as far as declarations depend on it: namespaces, classes
and the like with their members, comments as nodes among their siblings, and every
other construct as a node with children.
-/

namespace CodeIndex.Php

/-- A word in front of a declaration or a member. -/
inductive Modifier where
  /-- A visibility keyword. -/
  | access (level : Visibility)
  /-- A visibility keyword that applies to writing only. -/
  | setAccess (level : Visibility)
  | static
  | abstract
  | final
  | readonly
  | var
  deriving DecidableEq, Repr, Inhabited

/-- An expression that gives a default or a constant, as far as it is shown. -/
inductive Expr where
  /-- A number, text, truth value or null, as written. -/
  | scalar (text : String)
  /-- An operator before an operand, as written, and whether the operand is a number. -/
  | unary (text : String) (onNumber : Bool)
  /-- Anything else. -/
  | other
  deriving DecidableEq, Repr, Inhabited

/-- The three forms of a parameter. -/
inductive ParameterForm where
  | simple
  | variadic
  /-- A parameter that declares a property as well. -/
  | promoted
  deriving DecidableEq, Repr, Inhabited

/-- A parameter as written.  The written name holds the markers that belong to it. -/
structure ParameterNode where
  form : ParameterForm := .simple
  modifiers : List Modifier := []
  type : Option String := none
  hasReference : Bool := false
  writtenName : String
  default : Option Expr := none
  deriving DecidableEq, Repr, Inhabited

/-- What stands before the body of a method. -/
structure MethodHead where
  modifiers : List Modifier := []
  name : String
  parameters : List ParameterNode := []
  returnType : Option String := none
  deriving DecidableEq, Repr, Inhabited

/-- A property declaration: its elements share modifiers and type. -/
structure PropertyNode where
  modifiers : List Modifier := []
  type : Option String := none
  elements : List (String × Option Expr) := []
  deriving DecidableEq, Repr, Inhabited

/-- A constant declaration: its elements share modifiers. -/
structure ConstantNode where
  modifiers : List Modifier := []
  elements : List (String × Option Expr) := []
  deriving DecidableEq, Repr, Inhabited

/-- What stands before the body of a class, interface or trait. -/
structure ClassHead where
  modifiers : List Modifier := []
  kind : DeclarationKind := .cls
  name : String
  parents : List String := []
  interfaces : List String := []
  deriving DecidableEq, Repr, Inhabited

mutual

/-- A node of a source text. -/
inductive Node where
  | comment (text : String)
  /-- A namespace for the nodes that follow. -/
  | spaceStatement (name : String)
  /-- A namespace for its own block. -/
  | spaceBlock (name : String) (body : List Node)
  /-- A class, interface or trait. -/
  | classLike (head : ClassHead) (members : List Member)
  /-- Any other construct. -/
  | other (children : List Node)

/-- A node of a class body. -/
inductive Member where
  | comment (text : String)
  | method (head : MethodHead) (body : List Node)
  | property (node : PropertyNode)
  | constants (node : ConstantNode)
  | traitUse (names : List String)
  | other (children : List Node)

end

instance : Inhabited Node := ⟨.other []⟩
instance : Inhabited Member := ⟨.other []⟩

/-- The text of a comment node. -/
def Node.commentText? : Node → Option String
  | .comment text => some text
  | _ => none

/-- The text of a comment among members. -/
def Member.commentText? : Member → Option String
  | .comment text => some text
  | _ => none

end CodeIndex.Php
