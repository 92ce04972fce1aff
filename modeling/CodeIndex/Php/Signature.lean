import CodeIndex.Php.Term

/-!
# Defaults, parameters and method heads

The parts that the members of a class share.  Each reader takes trees from where they
stand; the flags say whether everything read was well-formed.
-/

namespace CodeIndex.Php

/-- Are the trees one number? -/
def isNumber (ts : List Tree) : Bool := ((numberRun ts).map fun run => run.2.isEmpty).getD false

/-- The expression that signs and a literal spell. -/
def expression (ts : List Tree) : Expr :=
  let inner := trimTrivia ts
  if isNumber inner then .scalar (treeText inner)
  else
    match inner with
    | [t] => if isScalar t then .scalar (treeText inner) else .other
    | t :: rest => if isUnaryOperator t then .unary (treeText inner) (isNumber rest) else .other
    | [] => .other

/-- The value after an equals sign, if there is one. -/
structure Assigned where
  value : Option Expr := none
  inner : Inner := []
  isComplete : Bool := true
  rest : List Tree
  deriving Inhabited

/-- Read the value after an equals sign that may stand here. -/
def assigned (fuel : Nat) (isOpen : Bool) (ts : List Tree) : Assigned :=
  match if isOpen then skipComments ts else skipTrivia ts with
  | t :: after =>
    if t.isSymbol "=" then
      let value := term fuel isOpen after
      { value := some ((value.shown.map expression).getD .other)
        inner := value.inner
        isComplete := value.isComplete
        rest := value.rest }
    else { rest := ts }
  | [] => { rest := ts }

/-- Does a modifier make a parameter declare a property? -/
def promotes : Modifier → Bool
  | .access _ => true
  | .setAccess _ => true
  | .readonly => true
  | _ => false

/-- An ampersand that stands here, with what separates it from what follows, and the rest. -/
def referenceRun (ts : List Tree) : List Tree × List Tree :=
  match ts with
  | t :: rest =>
    if t.isSymbol "&" then
      let gap := rest.takeWhile Tree.isTrivia
      (t :: gap, rest.drop gap.length)
    else ([], ts)
  | [] => ([], [])

/-- A parameter that was read, with the groups in it, whether it is well-formed, and the rest. -/
structure ParameterPart where
  node : ParameterNode
  inner : Inner
  isWellFormed : Bool
  rest : List Tree
  deriving Inhabited

/-- The hooks that may stand after a parameter, and the rest. -/
def hooksAfter (ts : List Tree) : Inner × List Tree :=
  match inGroup "\x7b" ts with
  | some (hooks, rest) => ([(.hooks, hooks)], rest)
  | none => ([], ts)

/-- Does the list of parameters go on with a comma here, or end? -/
def isParameterEnd (ts : List Tree) : Bool :=
  ((skipTrivia ts).head?.map (·.isSymbol ",")).getD true

/-- Read a parameter.  The reference marker of a promoted parameter belongs to its written
name. -/
def parameter (fuel : Nat) (ts : List Tree) : Option ParameterPart :=
  let lead := Lead.among promotes ts
  let (type, rest) := match typeRun lead.rest with
    | some (type, rest) => (some (treeText type), skipTrivia rest)
    | none => (none, lead.rest)
  let (reference, rest) := referenceRun rest
  let spread := afterSpread rest
  match variableRun (skipTrivia (spread.getD rest)) with
  | none => none
  | some (name, rest) =>
    let promoted := !lead.modifiers.isEmpty
    let default := assigned fuel false rest
    let (hooks, rest) := hooksAfter default.rest
    some {
      node := {
        form := if promoted then .promoted else if spread.isSome then .variadic else .simple
        modifiers := lead.modifiers
        type
        hasReference := !reference.isEmpty && !promoted
        writtenName := treeText (if promoted then reference ++ name else name)
        default := default.value }
      inner := lead.inner ++ default.inner ++ hooks
      isWellFormed := default.isComplete && isParameterEnd rest
      rest }

/-- The parameters that stand here, as far as they can be read, and whether all of them are
well-formed.  One that cannot be read is passed over. -/
def parametersFrom : Nat → List Tree → List ParameterPart × Bool
  | 0, _ => ([], false)
  | fuel + 1, ts =>
    match skipTrivia ts with
    | [] => ([], true)
    | t :: rest =>
      if t.isSymbol "," then parametersFrom fuel rest
      else
        match parameter fuel (t :: rest) with
        | none =>
          let (more, _) := parametersFrom fuel (rest.dropWhile (!·.isSymbol ","))
          (more, false)
        | some part =>
          let (more, ok) := parametersFrom fuel (part.rest.dropWhile (!·.isSymbol ","))
          (part :: more, ok && part.isWellFormed)

/-- The parameters between parentheses, as far as they can be read, and whether all of them are
well-formed. -/
def parameters (ts : List Tree) : List ParameterPart × Bool := parametersFrom (ts.length + 1) ts

/-- A method head that was read, with the groups in it, whether it is well-formed, and the
rest. -/
structure HeadPart where
  head : MethodHead
  inner : Inner
  isWellFormed : Bool
  rest : List Tree
  deriving Inhabited

/-- The head of a method after its keyword. -/
def methodHead (mods : List Modifier) (ts : List Tree) : Option HeadPart :=
  match afterAmpersand ts with
  | .leaf n :: rest =>
    if !n.isName then none
    else do
      let (inside, rest) ← inGroup "(" rest
      let (params, isWellFormed) := parameters inside
      let (type, rest) := typeAfterColon rest
      some {
        head := { modifiers := mods, name := n.text, parameters := params.map (·.node),
                  returnType := type.map treeText }
        inner := [(.parameters, inside)]
        isWellFormed
        rest }
  | _ => none

end CodeIndex.Php
