import CodeIndex.Php.Group
import CodeIndex.Php.Tree

/-!
# Modifiers and attributes

What stands in front of a class, a member or a parameter: modifiers and attributes in any
order, with comments and markup between them.  The groups found on the way are kept, each
with the way its inside is read.
-/

namespace CodeIndex.Php

/-- How the inside of a group is read. -/
inductive Role where
  | statements
  | members
  | terms
  | parameters
  /-- The hooks of a property. -/
  | hooks
  deriving DecidableEq, Repr, Inhabited

/-- Groups to be read, in order. -/
abbrev Inner := List (Role × List Tree)

/-- The modifier that a word is. -/
def modifierOf (t : Token) : Option Modifier :=
  if t.isWordOf ["public", "protected", "private"] then
    some (.access (Visibility.ofKeyword t.text))
  else if t.isWord "static" then some .static
  else if t.isWord "abstract" then some .abstract
  else if t.isWord "final" then some .final
  else if t.isWord "readonly" then some .readonly
  else if t.isWord "var" then some .var
  else none

/-- Is the tree one name in parentheses, with no gap in front? -/
def isOperation : Tree → Bool
  | .group o inside _ =>
    o.isSymbol "(" && o.isGlued &&
      (match trimTrivia inside with
        | [t] => t.isName
        | _ => false)
  | .leaf _ => false

/-- What stands in front of a construct, and the rest from the construct on. -/
structure Lead where
  modifiers : List Modifier := []
  /-- The attributes. -/
  inner : Inner := []
  rest : List Tree
  deriving Inhabited

namespace Lead

/-- Does nothing stand in front? -/
def isEmpty (l : Lead) : Bool := l.modifiers.isEmpty && l.inner.isEmpty

/-- Read on; modifiers and attributes are last first.  A name in parentheses directly after a
visibility limits it to that operation. -/
def readFrom (admits : Modifier → Bool) (mods : List Modifier) (inner : Inner) :
    List Tree → Lead
  | [] => ⟨mods.reverse, inner.reverse, []⟩
  | t :: rest =>
    let done : Lead := ⟨mods.reverse, inner.reverse, t :: rest⟩
    if t.isTrivia then readFrom admits mods inner rest
    else
      match t with
      | .group o inside _ =>
        if o.isSymbol "#[" then readFrom admits mods ((.terms, inside) :: inner) rest
        else
          match isOperation t, mods with
          | true, .access level :: more => readFrom admits (.setAccess level :: more) inner rest
          | _, _ => done
      | .leaf u =>
        match (modifierOf u).filter admits with
        | some m => readFrom admits (m :: mods) inner rest
        | none => done

/-- What stands in front of a construct, among the modifiers that `admits` lets through. -/
def among (admits : Modifier → Bool) (ts : List Tree) : Lead := readFrom admits [] [] ts

/-- What stands in front of a construct. -/
def read (ts : List Tree) : Lead := among (fun _ => true) ts

end Lead

end CodeIndex.Php
