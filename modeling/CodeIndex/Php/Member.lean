import CodeIndex.Php.Signature

/-!
# Members of a class

One member after the other, without entering the groups in them.  A keyword counts only
where a member may start with it: after a modifier, `use` is the name of a type.
-/

namespace CodeIndex.Php

/-- A member whose groups are still to be read. -/
inductive MemberPart where
  | method (head : MethodHead) (inner : Inner)
  | property (node : PropertyNode) (inner : Inner)
  | constants (node : ConstantNode) (inner : Inner)
  | traitUse (names : List String)
  /-- A case of an enumeration. -/
  | enumCase (inner : Inner)
  deriving Inhabited

/-- A piece that was read, whether it is well-formed, and the rest. -/
structure Piece (α : Type) where
  part : α
  isWellFormed : Bool
  rest : List Tree

/-- A use of traits after its keyword. -/
def traitUse (ts : List Tree) : Option (Piece MemberPart) :=
  (nameList ts).map fun (names, rest) =>
    match skipComments rest with
    | .group o inside c :: after =>
      if o.isSymbol "\x7b" then ⟨.traitUse names, true, after⟩
      else ⟨.traitUse names, false, .group o inside c :: after⟩
    | _ =>
      let (ok, rest) := semicolon rest
      ⟨.traitUse names, ok, rest⟩

/-- A method after its keyword.  A body that is not closed makes it none. -/
def method (lead : Lead) (ts : List Tree) : Option (Piece MemberPart) :=
  match methodHead lead.modifiers ts with
  | none => none
  | some part =>
    let inner := lead.inner ++ part.inner
    match skipComments part.rest with
    | t :: after =>
      match t.inside? "\x7b" with
      | some body => some ⟨.method part.head (inner ++ [(.statements, body)]), part.isWellFormed, after⟩
      | none =>
        if t.isSymbol "\x7b" then none
        else
          let (ended, rest) := semicolon part.rest
          some ⟨.method part.head inner, part.isWellFormed && ended, rest⟩
    | [] => some ⟨.method part.head inner, false, []⟩

/-- The elements of a declaration of constants or properties, with the groups in them, whether
they are well-formed, and the rest. -/
structure Elements where
  elements : List (String × Option Expr) := []
  inner : Inner := []
  isWellFormed : Bool := false
  rest : List Tree
  deriving Inhabited

/-- Can an element of a declaration end before this tree? -/
def isElementEnd (t : Tree) : Bool :=
  t.isSymbolOf [",", ";"] || t.isMarkup || t.isGroup "\x7b"

/-- Does a member start with this tree? -/
def startsMember (t : Tree) : Bool :=
  t.isGroup "#[" || t.isWordOf ["const", "function", "use"] ||
    t.isLeaf fun u => (modifierOf u).isSome

/-- The rest after what cannot follow the value of an element, and whether there was nothing of
that sort.  A member that starts here ends the declaration. -/
def afterStrays (ts : List Tree) : Bool × List Tree :=
  match skipComments ts with
  | t :: _ =>
    if isElementEnd t then (true, ts)
    else (false, ts.dropWhile fun t => !isElementEnd t && !startsMember t)
  | [] => (true, [])

/-- Does the tree end the name of a constant? -/
def endsConstantName (t : Tree) : Bool := t.isSymbolOf ["=", ",", ";"]

/-- Does the token name a built-in type?  Only `callable` does so in any letter case. -/
def isTypeWord (t : Token) : Bool :=
  t.isWord "callable" || t.isName &&
    ["array", "bool", "false", "float", "int", "iterable", "mixed", "null", "string", "true",
      "void"].contains t.text

/-- The name of a constant, perhaps after its type.  Where a type may stand, a word that names a
built-in type is one, and the name behind it is missing. -/
def constantName? (mayBeTyped : Bool) (named : List Tree) : Option String :=
  match (trimTrivia named).reverse with
  | .leaf n :: before =>
    if !n.isName then none
    else if mayBeTyped && before.isEmpty && isTypeWord n then some ""
    else some n.text
  | _ => none

/-- The elements of a constant declaration; the first one may have a type in front. -/
def constantElements (mayBeTyped : Bool) : Nat → List Tree → Elements
  | 0, ts => { rest := ts }
  | fuel + 1, ts =>
    let named := ts.takeWhile (!endsConstantName ·)
    let value := assigned fuel true (ts.drop named.length)
    let element := match constantName? mayBeTyped named, value.value with
      | some name, some expr => [(name, some expr)]
      | _, _ => []
    let (clean, rest) := afterStrays value.rest
    let ok := value.isComplete && clean && element.any fun e => !e.1.isEmpty
    match skipComments rest with
    | comma :: after =>
      if comma.isSymbol "," then
        let more := constantElements false fuel after
        { elements := element ++ more.elements
          inner := value.inner ++ more.inner
          isWellFormed := ok && more.isWellFormed
          rest := more.rest }
      else
        let (ended, rest) := semicolon rest
        { elements := element, inner := value.inner, isWellFormed := ok && ended, rest }
    | [] => { elements := element, inner := value.inner, rest := [] }

/-- A constant declaration after its keyword. -/
def constants (fuel : Nat) (lead : Lead) (ts : List Tree) : Piece MemberPart :=
  let read := constantElements true fuel ts
  ⟨.constants ⟨lead.modifiers, read.elements⟩ (lead.inner ++ read.inner), read.isWellFormed,
    read.rest⟩

/-- The elements of a property declaration; hooks may stand after the last one. -/
def propertyElements : Nat → List Tree → Option Elements
  | 0, _ => none
  | fuel + 1, ts =>
    match variableRun (skipTrivia ts) with
    | none => none
    | some (name, rest) =>
      let value := assigned fuel true rest
      let element := (treeText name, value.value)
      let (clean, rest) := afterStrays value.rest
      let ok := value.isComplete && clean
      match skipComments rest with
      | t :: after =>
        match t.inside? "\x7b" with
        | some hooks =>
          some {
            elements := [element], inner := value.inner ++ [(.hooks, hooks)],
            isWellFormed := ok, rest := after }
        | none =>
          if t.isSymbol "," then
            match propertyElements fuel after with
            | some more =>
              some {
                elements := element :: more.elements, inner := value.inner ++ more.inner,
                isWellFormed := ok && more.isWellFormed, rest := more.rest }
            | none => some { elements := [element], inner := value.inner, rest := after }
          else
            let (ended, rest) := semicolon rest
            some {
              elements := [element], inner := value.inner, isWellFormed := ok && ended, rest }
      | [] => some { elements := [element], inner := value.inner, rest := [] }

/-- A property declaration after its modifiers. -/
def property (fuel : Nat) (lead : Lead) (ts : List Tree) : Option (Piece MemberPart) :=
  let (type, rest) := match typeRun ts with
    | some (type, rest) => (some (treeText type), rest)
    | none => (none, ts)
  (propertyElements fuel rest).map fun read =>
    ⟨.property ⟨lead.modifiers, type, read.elements⟩ (lead.inner ++ read.inner),
      read.isWellFormed && !lead.modifiers.isEmpty, read.rest⟩

/-- A case of an enumeration after its keyword. -/
def enumCase (fuel : Nat) (lead : Lead) (ts : List Tree) : Piece MemberPart :=
  let value := term fuel true ts
  let (ended, rest) := semicolon value.rest
  ⟨.enumCase (lead.inner ++ value.inner), value.isComplete && ended, rest⟩

/-- The groups in what a hook does: nothing, a term or a block. -/
def hookBody (fuel : Nat) (ts : List Tree) : Piece Inner :=
  match skipComments ts with
  | t :: after =>
    match t.inside? "\x7b" with
    | some body => ⟨[(.statements, body)], true, after⟩
    | none =>
      let value := term fuel true after
      let inner := if t.isSymbol "=>" then value.inner else []
      let isComplete := !t.isSymbol "=>" || value.isComplete
      let (ended, rest) := semicolon (if t.isSymbol "=>" then value.rest else ts)
      ⟨inner, isComplete && ended, rest⟩
  | [] => ⟨[], false, []⟩

/-- The groups in the hooks of a property, and whether the hooks are well-formed. -/
def hooksFrom : Nat → List Tree → Inner × Bool
  | 0, _ => ([], false)
  | fuel + 1, ts =>
    let lead := Lead.read ts
    match afterAmpersand lead.rest with
    | [] => (lead.inner, lead.isEmpty)
    | n :: rest =>
      let (params, rest) := match inGroup "(" rest with
        | some (inside, rest) => ([(Role.parameters, inside)], rest)
        | none => ([], rest)
      let body := hookBody fuel rest
      let (more, ok) := hooksFrom fuel body.rest
      (lead.inner ++ params ++ body.part ++ more, ok && n.isName && body.isWellFormed)

/-- The groups in the hooks of a property, and whether the hooks are well-formed. -/
def hooks (ts : List Tree) : Inner × Bool := hooksFrom (ts.length + 1) ts

/-- Read the member that starts here; `fuel` bounds the steps within it. -/
def member (fuel : Nat) (ts : List Tree) : Option (Piece MemberPart) :=
  let lead := Lead.read ts
  match lead.rest with
  | [] => none
  | k :: after =>
    if k.isWord "use" && lead.modifiers.isEmpty then traitUse after
    else if k.isWord "function" then method lead after
    else if k.isWord "const" then some (constants fuel lead after)
    else if k.isWord "case" && lead.modifiers.isEmpty then some (enumCase fuel lead after)
    else property fuel lead (k :: after)

/-- The rest after all well-formed members that stand here. -/
def afterMembers : Nat → List Tree → List Tree
  | 0, ts => ts
  | fuel + 1, ts =>
    match member fuel (skipTrivia ts) with
    | some piece => if piece.isWellFormed then afterMembers fuel piece.rest else ts
    | none => ts

end CodeIndex.Php
