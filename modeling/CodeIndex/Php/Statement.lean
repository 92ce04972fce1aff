import CodeIndex.Php.Member

/-!
# Statements

One statement after the other, without entering the groups in them.  Conditions, loops
and labels are read up to their body, which then stands beside them: what is declared in
a body is found all the same.

A keyword counts only at the start of a statement, and there `namespace` still starts a
term unless a semicolon or a block follows the name.
-/

namespace CodeIndex.Php

/-- A statement whose groups are still to be read. -/
inductive StatementPart where
  | spaceStatement (name : String)
  | spaceBlock (name : String) (body : List Tree)
  | classLike (head : ClassHead) (members : List Tree)
  | other (inner : Inner)
  deriving Inhabited

/-- The kind of declaration that a keyword starts. -/
def kindOf (t : Tree) : Option DeclarationKind :=
  if t.isWord "class" then some .cls
  else if t.isWord "interface" then some .iface
  else if t.isWord "trait" then some .trt
  else none

/-- The terms of a list with commas between, whether they are complete, and the rest. -/
def termList : Nat → List Tree → Inner × Bool × List Tree
  | 0, ts => ([], false, ts)
  | fuel + 1, ts =>
    let one := term fuel true ts
    match skipComments one.rest with
    | t :: rest =>
      if t.isSymbol "," then
        let (more, ok, last) := termList fuel rest
        (one.inner ++ more, one.isComplete && ok, last)
      else (one.inner, one.isComplete, one.rest)
    | [] => (one.inner, one.isComplete, one.rest)

/-- Terms with a semicolon after them.  Nothing is read if no term starts here. -/
def termStatement (fuel : Nat) (ts : List Tree) : Option (Piece StatementPart) :=
  match ts with
  | [] => none
  | t :: rest =>
    (Progress.step {} t rest).map fun _ =>
      let (inner, ok, rest) := termList fuel ts
      let (ended, rest) := semicolon rest
      ⟨.other inner, ok && ended, rest⟩

/-- Terms after a keyword, which may be missing, with a semicolon after them. -/
def termsAfterWord (fuel : Nat) (ts : List Tree) : Piece StatementPart :=
  match semicolon ts with
  | (true, rest) => ⟨.other [], true, rest⟩
  | (false, _) =>
    match termStatement fuel (skipTrivia ts) with
    | some piece => piece
    | none => ⟨.other [], false, ts⟩

/-- The rest after a colon that may stand here. -/
def afterColon (ts : List Tree) : List Tree :=
  match skipTrivia ts with
  | t :: rest => if t.isSymbol ":" then rest else ts
  | [] => ts

/-- What stands in parentheses in front of a body. -/
def control (ts : List Tree) : Option (Piece StatementPart) :=
  (inGroup "(" ts).map fun (inside, rest) => ⟨.other [(.terms, inside)], true, afterColon rest⟩

/-- The head of a branch after its keyword, up to a colon or a semicolon. -/
def branch (fuel : Nat) (ts : List Tree) : Piece StatementPart :=
  let one := term fuel false ts
  match skipTrivia one.rest with
  | t :: rest =>
    if t.isSymbolOf [":", ";"] then ⟨.other one.inner, one.isComplete, rest⟩
    else ⟨.other one.inner, false, one.rest⟩
  | [] => ⟨.other one.inner, false, []⟩

/-- The rest after a word that may stand here. -/
def afterWord (words : List String) (ts : List Tree) : Option (List Tree) :=
  match skipTrivia ts with
  | t :: rest => if t.isWordOf words then some rest else none
  | [] => none

/-- The rest after one imported name: perhaps a group of names after a backslash, perhaps another
name for it. -/
def afterImport (ts : List Tree) : Option (List Tree) := do
  let (_, rest) ← nameRun (skipTrivia ts)
  match skipTrivia rest with
  | b :: after =>
    if b.isSymbol "\\" then (inGroup "\x7b" after).map Prod.snd
    else
      match afterWord ["as"] rest with
      | some named => (skipTrivia named).tail?
      | none => some rest
  | [] => some []

/-- The rest after imported names with commas between them. -/
def afterImports : Nat → List Tree → List Tree
  | 0, ts => ts
  | fuel + 1, ts =>
    let named := (afterWord ["function", "const"] ts).filter fun rest =>
      (nameRun (skipTrivia rest)).isSome
    match afterImport (named.getD ts) with
    | none => ts
    | some rest =>
      match skipComments rest with
      | t :: after => if t.isSymbol "," then afterImports fuel after else rest
      | [] => []

/-- An import after its keyword. -/
def importStatement (fuel : Nat) (ts : List Tree) : Piece StatementPart :=
  let (ended, rest) := semicolon (afterImports fuel ts)
  ⟨.other [], ended, rest⟩

/-- A function with a name, after its keyword. -/
def namedFunction (lead : Lead) (ts : List Tree) : Option (Piece StatementPart) :=
  match methodHead [] ts with
  | none => none
  | some part =>
    (inGroup "\x7b" part.rest).map fun (body, rest) =>
      ⟨.other (lead.inner ++ part.inner ++ [(.statements, body)]), part.isWellFormed, rest⟩

/-- An enumeration after its keyword. -/
def enumeration (lead : Lead) (ts : List Tree) : Option (Piece StatementPart) :=
  match skipTrivia ts with
  | n :: rest =>
    if !n.isName then none
    else do
      let (_, rest) := typeAfterColon rest
      let (_, rest) ← clause "implements" rest
      let (body, rest) ← inGroup "\x7b" rest
      some ⟨.other (lead.inner ++ [(.members, body)]), true, rest⟩
  | [] => none

/-- Trees that end in front of a block, read as one name if they are one. -/
def spaceName? (ts : List Tree) : Option (String × List Tree) :=
  match skipTrivia ts with
  | t :: rest =>
    if t.isGroup "\x7b" || t.isSymbol "\x7b" then some ("", t :: rest)
    else (nameRun (t :: rest)).map fun (name, rest) => (treeText name, rest)
  | [] => none

/-- The clauses of a class head: parents, interfaces, whether they are well-formed, and the rest
from the body on. -/
def clauses (kind : DeclarationKind) (ts : List Tree) :
    List String × List String × Bool × List Tree :=
  let (parents, rest) :=
    if kind == .trt then ([], ts) else (clause "extends" ts).getD ([], ts)
  let (interfaces, rest) :=
    if kind == .cls then (clause "implements" rest).getD ([], rest) else ([], rest)
  let isStray (t : Tree) := t.isTrivia || t.isName || t.isSymbolOf ["\\", ","]
  let rest := skipTrivia rest
  (parents, interfaces, !((rest.head?.map isStray).getD false), rest.dropWhile isStray)

mutual

/-- Read the statement that starts here; `fuel` bounds the steps within it. -/
def statement : Nat → List Tree → Option (Piece StatementPart)
  | 0, _ => none
  | _ + 1, [] => none
  | fuel + 1, t :: rest =>
    let lead := Lead.read (t :: rest)
    let isBare := lead.modifiers.isEmpty
    match lead.rest with
    | k :: named =>
      if k.isWord "class" then classFrom fuel lead.modifiers .cls named
      else if (kindOf k).isSome && isBare then classFrom fuel [] ((kindOf k).getD .cls) named
      else if k.isWord "enum" && isBare then enumeration lead named
      else if k.isWord "function" && isBare then
        (namedFunction lead named).or (termStatement fuel (t :: rest))
      else if lead.inner.isEmpty then plainFrom fuel t rest
      else termStatement fuel (t :: rest)
    | [] => none

/-- A statement that starts with no modifier and declares no class. -/
def plainFrom : Nat → Tree → List Tree → Option (Piece StatementPart)
  | 0, _, _ => none
  | fuel + 1, t, rest =>
    if t.isSymbol ";" then some ⟨.other [], true, rest⟩
    else if let some inside := t.inside? "\x7b" then some ⟨.other [(.statements, inside)], true, rest⟩
    else if t.isWord "namespace" then (spaceFrom fuel rest).or (termStatement fuel (t :: rest))
    else if t.isWord "use" then some (importStatement fuel rest)
    else if t.isWordOf ["if", "elseif", "while", "for", "foreach", "switch", "declare"] then
      control rest
    else if t.isWord "catch" then (inGroup "(" rest).map fun (_, rest) => ⟨.other [], true, rest⟩
    else if t.isWordOf ["else", "default"] then some ⟨.other [], true, afterColon rest⟩
    else if t.isWordOf ["do", "try", "finally"] then some ⟨.other [], true, rest⟩
    else if t.isWord "case" then some (branch fuel rest)
    else if t.isWordOf ["return", "break", "continue"] then some (termsAfterWord fuel rest)
    else if t.isWordOf ["echo", "const", "global", "goto"] then termStatement fuel (skipTrivia rest)
    else if t.isWord "static" then
      match skipTrivia rest with
      | v :: _ =>
        if (variableRun (skipTrivia rest)).isSome && !v.isName then termStatement fuel (skipTrivia rest)
        else termStatement fuel (t :: rest)
      | [] => none
    else
      match t.isName, skipTrivia rest with
      | true, colon :: after =>
        if colon.isSymbol ":" then some ⟨.other [], true, after⟩ else termStatement fuel (t :: rest)
      | _, _ => termStatement fuel (t :: rest)

/-- A namespace definition after its keyword.  A block that is not closed ends with the text, if
all of it is well-formed; a semicolon may be missing. -/
def spaceFrom : Nat → List Tree → Option (Piece StatementPart)
  | 0, _ => none
  | fuel + 1, ts =>
    match spaceName? ts with
    | none => none
    | some (name, rest) =>
      match semicolon rest with
      | (true, last) => if name.isEmpty then none else some ⟨.spaceStatement name, true, last⟩
      | (false, block) =>
        match skipTrivia block with
        | [] => none
        | b :: body =>
          match b.inside? "\x7b" with
          | some inside => some ⟨.spaceBlock name inside, true, body⟩
          | none =>
            if !b.isSymbol "\x7b" then
              if name.isEmpty || Text.startsWith ['\\'] name.toList then none
              else some ⟨.spaceStatement name, false, b :: body⟩
            else if (skipTrivia (afterStatements fuel body)).isEmpty then
              some ⟨.spaceBlock name body, false, []⟩
            else none

/-- A class, interface or trait after its keyword.  A body that is not closed ends after its last
well-formed member, if a well-formed statement or nothing follows. -/
def classFrom : Nat → List Modifier → DeclarationKind → List Tree → Option (Piece StatementPart)
  | 0, _, _, _ => none
  | fuel + 1, mods, kind, ts =>
    match skipTrivia ts with
    | .leaf n :: rest =>
      if !n.isName then none
      else
        let (parents, interfaces, ok, rest) := clauses kind rest
        let head : ClassHead := { modifiers := mods, kind, name := n.text, parents, interfaces }
        match rest with
        | [] => none
        | b :: body =>
          match b.inside? "\x7b" with
          | some inside => some ⟨.classLike head inside, ok, body⟩
          | none =>
            if !b.isSymbol "\x7b" then none
            else
              let last := afterMembers fuel body
              let inside := body.take (body.length - last.length)
              let isEnded := match skipTrivia last with
                | [] => true
                | next => ((statement fuel next).map Piece.isWellFormed).getD false
              if isEnded then some ⟨.classLike head inside, false, last⟩ else none
    | _ => none

/-- The rest after all well-formed statements that stand here. -/
def afterStatements : Nat → List Tree → List Tree
  | 0, ts => ts
  | fuel + 1, ts =>
    match statement fuel (skipTrivia ts) with
    | some piece => if piece.isWellFormed then afterStatements fuel piece.rest else ts
    | none => ts

end

end CodeIndex.Php
