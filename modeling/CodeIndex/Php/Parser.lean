import CodeIndex.Php.Lexer
import CodeIndex.Php.Statement

/-!
# The tree of a source text

Statements and members are read level by level, each group as the piece around it says.
What starts no statement is passed over, one tree at a time, and counts as a fault.

Where heredocs may end at several places, the source is read with the first end of each,
and then with later ones, until a reading has no fault.  If all have one, the reading
counts whose first fault is the furthest in the source.
-/

namespace CodeIndex.Php

/-- Where the first fault is noticed, if there is one. -/
abbrev Fault := Option Nat

namespace Fault

/-- The first of two faults. -/
def first : Fault → Fault → Fault
  | none, b => b
  | a, none => a
  | some a, some b => some (min a b)

/-- No fault if a piece is well-formed; otherwise it is noticed where the piece ends, which is
where the rest starts or with the last of all trees. -/
def ofPiece (isWellFormed : Bool) (trees rest : List Tree) : Fault :=
  if isWellFormed then none
  else
    match rest with
    | t :: _ => some t.place
    | [] => some ((trees.getLast?.map Tree.lastPlace).getD 0)

/-- Is the first fault noticed later than the second one? -/
def isLater : Fault → Fault → Bool
  | none, b => b.isSome
  | some a, some b => b < a
  | some _, none => false

end Fault

/-- The nodes in a member, when its class is not one that is declared. -/
def Member.nodes : Member → List Node
  | .method _ body => body
  | .other children => children
  | _ => []

mutual

/-- Read statements. -/
def statementNodes : Nat → List Tree → List Node × Fault
  | 0, ts => ([], Fault.ofPiece false ts [])
  | _ + 1, [] => ([], none)
  | fuel + 1, t :: rest =>
    match t.commentText? with
    | some text =>
      let (nodes, fault) := statementNodes fuel rest
      (.comment text :: nodes, fault)
    | none =>
      if t.isMarkup then
        let (nodes, fault) := statementNodes fuel rest
        (.other [] :: nodes, fault)
      else
        match statement fuel (t :: rest) with
        | some piece =>
          let (node, inside) := statementNode fuel piece.part
          let (nodes, later) := statementNodes fuel piece.rest
          let here := Fault.ofPiece piece.isWellFormed (t :: rest) piece.rest
          (node :: nodes, Fault.first (Fault.first here inside) later)
        | none =>
          let (children, _) := innerNodes fuel (strayRole t)
          let (nodes, _) := statementNodes fuel rest
          (.other children :: nodes, Fault.ofPiece false (t :: rest) rest)

/-- The node of a statement. -/
def statementNode : Nat → StatementPart → Node × Fault
  | 0, _ => (.other [], none)
  | _ + 1, .spaceStatement name => (.spaceStatement name, none)
  | fuel + 1, .spaceBlock name body =>
    let (nodes, fault) := statementNodes fuel body
    (.spaceBlock name nodes, fault)
  | fuel + 1, .classLike head body =>
    let (members, fault) := memberNodes fuel body
    (.classLike head members, fault)
  | fuel + 1, .other inner =>
    let (nodes, fault) := innerNodes fuel inner
    (.other nodes, fault)

/-- Read the members of a class. -/
def memberNodes : Nat → List Tree → List Member × Fault
  | 0, ts => ([], Fault.ofPiece false ts [])
  | _ + 1, [] => ([], none)
  | fuel + 1, t :: rest =>
    match t.commentText? with
    | some text =>
      let (nodes, fault) := memberNodes fuel rest
      (.comment text :: nodes, fault)
    | none =>
      if t.isMarkup then
        let (nodes, fault) := memberNodes fuel rest
        (.other [] :: nodes, fault)
      else
        match member fuel (t :: rest) with
        | some piece =>
          let (found, inside) := memberParts fuel piece.part
          let (nodes, later) := memberNodes fuel piece.rest
          let here := Fault.ofPiece piece.isWellFormed (t :: rest) piece.rest
          (found ++ nodes, Fault.first (Fault.first here inside) later)
        | none =>
          let (children, _) := innerNodes fuel (strayRole t)
          let (nodes, _) := memberNodes fuel rest
          (.other children :: nodes, Fault.ofPiece false (t :: rest) rest)

/-- The member of a part.  What stands in the groups of a property, a constant or a case is
placed beside it. -/
def memberParts : Nat → MemberPart → List Member × Fault
  | 0, _ => ([], none)
  | fuel + 1, .method head inner =>
    let (nodes, fault) := innerNodes fuel inner
    ([.method head nodes], fault)
  | fuel + 1, .property node inner =>
    let (nodes, fault) := innerNodes fuel inner
    ([.property node, .other nodes], fault)
  | fuel + 1, .constants node inner =>
    let (nodes, fault) := innerNodes fuel inner
    ([.constants node, .other nodes], fault)
  | _ + 1, .traitUse names => ([.traitUse names], none)
  | fuel + 1, .enumCase inner =>
    let (nodes, fault) := innerNodes fuel inner
    ([.other nodes], fault)

/-- Read groups, each as its role says. -/
def innerNodes : Nat → Inner → List Node × Fault
  | 0, _ => ([], none)
  | _ + 1, [] => ([], none)
  | fuel + 1, (role, inside) :: rest =>
    let (nodes, fault) := roleNodes fuel role inside
    let (more, later) := innerNodes fuel rest
    (.other nodes :: more, Fault.first fault later)

/-- Read the inside of a group. -/
def roleNodes : Nat → Role → List Tree → List Node × Fault
  | 0, _, _ => ([], none)
  | fuel + 1, .statements, inside => statementNodes fuel inside
  | fuel + 1, .members, inside =>
    let (members, fault) := memberNodes fuel inside
    (members.flatMap Member.nodes, fault)
  | fuel + 1, .terms, inside =>
    let (inner, ok) := terms inside
    let (nodes, fault) := innerNodes fuel inner
    (nodes, Fault.first (Fault.ofPiece ok inside []) fault)
  | fuel + 1, .parameters, inside =>
    let (params, ok) := parameters inside
    let (nodes, fault) := innerNodes fuel (params.flatMap (·.inner))
    (nodes, Fault.first (Fault.ofPiece ok inside []) fault)
  | fuel + 1, .hooks, inside =>
    let (inner, ok) := hooks inside
    let (nodes, fault) := innerNodes fuel inner
    (nodes, Fault.first (Fault.ofPiece ok inside []) fault)

end

/-- A source text read with one choice for each heredoc that has several ends. -/
structure Reading where
  /-- The choices, as many as there are such heredocs. -/
  choices : List Nat
  /-- The first tokens of those heredocs. -/
  forks : List Token
  nodes : List Node
  fault : Fault

namespace Reading

/-- Read a source with some choices; those not given are the first.  What stands in front of the
code is a node as well. -/
def ofChoices (choices : List Nat) (source : String) : Reading :=
  let tokens := lex choices source
  let forks := tokens.filter (·.spare != 0)
  let (nodes, fault) := statementNodes (16 * (tokens.length + 3)) (group tokens)
  let rest := List.replicate (forks.length - choices.length) 0
  { choices := (choices ++ rest).take forks.length, forks, nodes := .other [] :: nodes, fault }

/-- The choices to try next: the last one that stands in front of the fault, and has a further
end, takes its next end. -/
def next? (r : Reading) : Option (List Nat) :=
  let isBefore (t : Token) := (r.fault.map fun place => decide (t.place < place)).getD false
  let inFront := (r.choices.zip r.forks).takeWhile fun (_, t) => isBefore t
  match inFront.reverse.dropWhile fun (choice, t) => t.spare ≤ choice with
  | [] => none
  | (choice, _) :: before => some ((before.reverse.map Prod.fst) ++ [choice + 1])

/-- The better of a reading and at most `fuel` further ones; the first one without a fault ends
the search. -/
def search (source : String) : Nat → Reading → Reading → Reading
  | 0, best, _ => best
  | fuel + 1, best, last =>
    match last.next? with
    | none => best
    | some choices =>
      let reading := ofChoices choices source
      search source fuel (if Fault.isLater reading.fault best.fault then reading else best) reading

end Reading

/-- How many further readings of a source are tried. -/
def readingLimit : Nat := 200

/-- The tree of a source text. -/
def parseTree (source : String) : List Node :=
  let reading := Reading.ofChoices [] source
  (Reading.search source readingLimit reading reading).nodes

end CodeIndex.Php
