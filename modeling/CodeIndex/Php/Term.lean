import CodeIndex.Php.Modifier
import CodeIndex.Php.Number

/-!
# Names, types and terms

Runs of trees at one level: a qualified name, a type, a term.  Groups are not entered;
a term says which groups it holds and how each is to be read.

In a term operands and operators take turns, so a word or a bracket is told by its place:
`class` after two colons is a name, a brace after a complete operand ends the term, `e5` is
a number where an operand stands.
-/

namespace CodeIndex.Php

/-- The longest run of trees that a machine accepts, and the rest.  `done` holds the run so far
and `pending` the trees after it, both last first; `mark` is the rest after the run.  A run
does not end with trivia. -/
def longestRun {σ : Type} (next : σ → Tree → Option σ) (accepts : σ → Bool)
    (done pending mark : List Tree) : σ → List Tree → List Tree × List Tree
  | _, [] => (done.reverse, mark)
  | s, t :: rest =>
    match next s t with
    | none => (done.reverse, mark)
    | some s' =>
      if accepts s' && !t.isTrivia then
        longestRun next accepts (t :: (pending ++ done)) [] rest s' rest
      else longestRun next accepts done (t :: pending) mark s' rest

/-- A run and its rest are the trees that were there. -/
theorem longestRun_append {σ : Type} (next : σ → Tree → Option σ) (accepts : σ → Bool)
    (s : σ) (ts done pending : List Tree) :
    let run := longestRun next accepts done pending (pending.reverse ++ ts) s ts
    run.1 ++ run.2 = done.reverse ++ (pending.reverse ++ ts) := by
  induction ts generalizing s done pending with
  | nil => simp [longestRun]
  | cons t ts ih =>
    simp only [longestRun]
    split
    · rfl
    · next s' _ =>
      split
      · simpa using ih s' (t :: (pending ++ done)) []
      · simpa using ih s' done (t :: pending)

/-- The longest run that stands here, unless it is empty, and the rest. -/
def runOf {σ : Type} (next : σ → Tree → Option σ) (accepts : σ → Bool) (start : σ)
    (ts : List Tree) : Option (List Tree × List Tree) :=
  let run := longestRun next accepts [] [] ts start ts
  if run.1.isEmpty then none else some run

/-- What was read of a name: nothing, one of its parts, or the backslash before a part. -/
inductive NameState where
  | start
  | part
  | bar
  deriving DecidableEq, Repr, Inhabited

/-- One tree of a name. -/
def NameState.next (s : NameState) (t : Tree) : Option NameState :=
  match s with
  | .start => if t.isName then some .part else if t.isSymbol "\\" then some .bar else none
  | .part => if t.isComment then some .part else if t.isSymbol "\\" then some .bar else none
  | .bar => if t.isTrivia then some .bar else if t.isName then some .part else none

/-- A name with its parts, and the rest. -/
def nameRun (ts : List Tree) : Option (List Tree × List Tree) :=
  runOf NameState.next (· == .part) .start ts

/-- The names of a list with commas between, and the rest. -/
def nameListFrom : Nat → List Tree → Option (List (List Tree) × List Tree)
  | 0, _ => none
  | fuel + 1, ts =>
    match nameRun (skipTrivia ts) with
    | none => none
    | some (name, rest) =>
      match skipComments rest with
      | comma :: after =>
        if comma.isSymbol "," then
          (nameListFrom fuel after).map fun (names, last) => (name :: names, last)
        else some ([name], rest)
      | [] => some ([name], rest)

/-- May the tree stand in a list of names? -/
def isListed (t : Tree) : Bool := t.isTrivia || t.isName || t.isSymbolOf ["\\", ","]

/-- The texts of the names of a list, and the rest. -/
def nameList (ts : List Tree) : Option (List String × List Tree) :=
  let listed := ts.takeWhile isListed
  (nameListFrom (listed.length + 1) listed).map fun (names, rest) =>
    (names.map treeText, rest ++ ts.drop listed.length)

/-- What was read of a type: nothing, a bar or an ampersand, a question mark, a part of a name,
the backslash before a part, or a group. -/
inductive TypeState where
  | start
  | joint
  | question
  | part
  | bar
  | group
  deriving DecidableEq, Repr, Inhabited

namespace TypeState

/-- A tree where an alternative of a type starts. -/
def first (t : Tree) : Option TypeState :=
  if t.isSymbol "?" then some .question
  else if t.isGroup "(" then some .group
  else if t.isName then some .part
  else if t.isSymbol "\\" then some .bar
  else none

/-- One tree of a type. -/
def next (s : TypeState) (t : Tree) : Option TypeState :=
  match s with
  | .start => first t
  | .joint => if t.isTrivia then some .joint else first t
  | .question =>
    if t.isTrivia then some .question
    else if t.isName then some .part
    else if t.isSymbol "\\" then some .bar
    else none
  | .part =>
    if t.isComment then some .part
    else if t.isSymbol "\\" then some .bar
    else if t.isSymbolOf ["|", "&"] then some .joint
    else none
  | .bar => if t.isTrivia then some .bar else if t.isName then some .part else none
  | .group =>
    if t.isComment then some .group
    else if t.isSymbolOf ["|", "&"] then some .joint
    else none

end TypeState

/-- A type, and the rest. -/
def typeRun (ts : List Tree) : Option (List Tree × List Tree) :=
  runOf TypeState.next (fun s => s == .part || s == .group) .start ts

/-- The rest after a colon and a type, if there is a colon, and the type. -/
def typeAfterColon (ts : List Tree) : Option (List Tree) × List Tree :=
  match skipComments ts with
  | colon :: after =>
    if colon.isSymbol ":" then
      match typeRun (skipTrivia after) with
      | some (type, rest) => (some type, rest)
      | none => (none, ts)
    else (none, ts)
  | [] => (none, ts)

/-- A variable, and the rest.  Its dollar sign may stand apart from its name. -/
def variableRun (ts : List Tree) : Option (List Tree × List Tree) :=
  match ts with
  | t :: rest =>
    if t.isKind .variable then some ([t], rest)
    else if t.isSymbol "$" then
      let gap := rest.takeWhile Tree.isTrivia
      match rest.drop gap.length with
      | n :: last => if n.isName then some (t :: gap ++ [n], last) else none
      | [] => none
    else none
  | [] => none

/-- Operators between two operands. -/
def infixSymbols : List String :=
  ["+", "-", "*", "/", "%", "**", ".", "<<", ">>", "<", ">", "<=", ">=", "==", "!=", "===", "!==",
    "<>", "<=>", "&", "|", "^", "&&", "||", "??", "=", "+=", "-=", "*=", "/=", ".=", "%=", "**=",
    "&=", "|=", "^=", "<<=", ">>=", "??="]

/-- Words between two operands. -/
def infixWords : List String := ["instanceof", "and", "or", "xor"]

/-- Operators in front of an operand. -/
def prefixSymbols : List String := ["+", "-", "!", "~", "@", "&"]

/-- Words in front of an operand. -/
def prefixWords : List String :=
  ["clone", "print", "include", "include_once", "require", "require_once", "throw"]

/-- The words that name a type to convert to. -/
def castWords : List String :=
  ["array", "binary", "bool", "boolean", "double", "int", "integer", "float", "object", "real",
    "string", "unset"]

/-- Is the inside of parentheses a type to convert to? -/
def isCast (inside : List Tree) : Bool :=
  match trimTrivia inside with
  | [t] => t.isWordOf castWords
  | _ => false

/-- Can an operand start here, so that a type in front of it converts it? -/
def startsOperand (ts : List Tree) : Bool :=
  match skipTrivia ts with
  | .group o _ _ :: _ => !o.isSymbol "\x7b"
  | .leaf t :: _ =>
    (t.isName && !t.isWordOf infixWords) ||
      [.variable, .number, .literal, .command].contains t.kind ||
      t.isSymbolOf ("$" :: "\\" :: "." :: prefixSymbols)
  | [] => false

/-- The rest after an ampersand that may stand here. -/
def afterAmpersand (ts : List Tree) : List Tree :=
  match skipTrivia ts with
  | t :: rest => if t.isSymbol "&" then skipTrivia rest else t :: rest
  | [] => []

/-- The inside of a group in these brackets that must stand here, and the rest. -/
def inGroup (bracket : String) (ts : List Tree) : Option (List Tree × List Tree) :=
  match skipTrivia ts with
  | t :: rest => (t.inside? bracket).map (·, rest)
  | [] => none

/-- The rest after the variables that a closure takes over, if it takes any over. -/
def afterTaken (ts : List Tree) : List Tree :=
  match skipTrivia ts with
  | t :: rest => if t.isWord "use" then ((inGroup "(" rest).map Prod.snd).getD ts else ts
  | [] => ts

/-- A function without a name, after its keyword. -/
def closure (ts : List Tree) : Option (Inner × List Tree) := do
  let (params, rest) ← inGroup "(" (afterAmpersand ts)
  let (_, rest) := typeAfterColon (afterTaken rest)
  let (body, rest) ← inGroup "\x7b" rest
  some ([(.parameters, params), (.statements, body)], rest)

/-- A function of one term, after its keyword; the rest starts with that term. -/
def arrow (ts : List Tree) : Option (Inner × List Tree) := do
  let (params, rest) ← inGroup "(" (afterAmpersand ts)
  match skipTrivia (typeAfterColon rest).2 with
  | t :: rest => if t.isSymbol "=>" then some ([(.parameters, params)], rest) else none
  | [] => none

/-- A choice among values, after its keyword. -/
def choice (ts : List Tree) : Option (Inner × List Tree) := do
  let (subject, rest) ← inGroup "(" ts
  let (arms, rest) ← inGroup "\x7b" rest
  some ([(.terms, subject), (.terms, arms)], rest)

/-- The rest after a clause of a class head, if it stands here, and the names in it. -/
def clause (word : String) (ts : List Tree) : Option (List String × List Tree) :=
  match skipTrivia ts with
  | t :: rest => if t.isWord word then nameList rest else some ([], ts)
  | [] => some ([], [])

/-- A class without a name, after the keyword that makes an object of it. -/
def namelessClass (ts : List Tree) : Option (Inner × List Tree) :=
  let lead := Lead.read ts
  match lead.rest with
  | [] => none
  | t :: rest =>
    if !t.isWord "class" then none
    else do
      let (arguments, rest) := (inGroup "(" rest).getD ([], rest)
      let (_, rest) ← clause "extends" rest
      let (_, rest) ← clause "implements" rest
      let (body, rest) ← inGroup "\x7b" rest
      some (lead.inner ++ [(.terms, arguments), (.members, body)], rest)

/-- The tokens that stand here without gaps and may belong to a number, at most `n`. -/
def gluedTokens : Nat → List Tree → List Token
  | n + 1, .leaf t :: rest =>
    if t.isGlued && (t.isName || t.kind == .number || t.isSymbolOf [".", "+", "-"]) then
      t :: gluedTokens n rest
    else []
  | _, _ => []

/-- A number where an operand stands, and the rest.  Names and points belong to it as far as they
spell one: a name, a point or a sign, and digits make up at most five tokens. -/
def numberRun (ts : List Tree) : Option (List Tree × List Tree) :=
  match ts with
  | .leaf t :: rest =>
    if t.kind == .number || t.isName || t.isSymbol "." then
      let run := t :: gluedTokens 4 rest
      let spells (n : Nat) := n ≤ run.length && isFloat ((run.take n).flatMap (·.text.toList))
      let whole := if t.kind == .number then some 1 else none
      (([5, 4, 3, 2, 1].find? spells).or whole).map fun n => (ts.take n, ts.drop n)
    else none
  | _ => none

/-- Is the tree a text, a truth value or null? -/
def isScalar : Tree → Bool
  | .leaf t => t.kind == .literal || t.isWordOf ["true", "false", "null"]
  | .group o _ _ => o.kind == .opening && !Text.startsWith ['\x60'] o.text.toList

/-- Is the tree an operator that stands before its operand? -/
def isUnaryOperator (t : Tree) : Bool := t.isSymbolOf ["-", "+", "~", "!"]

/-- What a term goes on with. -/
inductive Wanted where
  | operand
  /-- An operand, or the end of the term. -/
  | operandOrEnd
  | operator
  /-- The name of a member. -/
  | member
  deriving DecidableEq, Repr, Inhabited

/-- What was read of a term. -/
structure Progress where
  /-- What it goes on with. -/
  wanted : Wanted := .operand
  /-- Is the last operand one that can be stepped up or down? -/
  isPlace : Bool := false
  /-- How many question marks wait for their colon. -/
  waiting : Nat := 0
  /-- How many times a key may still be followed by its value. -/
  keys : Nat := 0
  /-- The groups in it, last one first. -/
  inner : Inner := []
  /-- The trees read, last one first, if they are signs and a literal at most. -/
  shown : Option (List Tree) := some []
  deriving Inhabited

namespace Progress

/-- Go on with something else. -/
def want (p : Progress) (wanted : Wanted) : Progress := { p with wanted }

/-- Keep groups. -/
def keep (p : Progress) (inner : Inner) : Progress :=
  { p with inner := inner.reverse ++ p.inner }

/-- Go on with an operator after an operand with these groups. -/
def hold (p : Progress) (inner : Inner) : Progress :=
  { p.keep inner with wanted := .operator, isPlace := false }

/-- Go on with an operator after an operand that can be stepped up or down. -/
def holdPlace (p : Progress) (inner : Inner) : Progress := { p.hold inner with isPlace := true }

/-- May the term end here? -/
def mayEnd (p : Progress) : Bool :=
  (p.wanted == .operator || p.wanted == .operandOrEnd) && p.waiting == 0

/-- A variable whose name is computed, after its dollar sign. -/
def dynamicVariable (p : Progress) (rest : List Tree) : Option (Progress × List Tree) :=
  match skipTrivia rest with
  | t :: rest =>
    if t.isKind .variable || t.isName then some (p.holdPlace [], rest)
    else if t.isSymbol "$" then some (p, t :: rest)
    else (t.inside? "\x7b").map fun inside => (p.holdPlace [(.terms, inside)], rest)
  | [] => none

/-- A word where an operand is wanted. -/
def operandWord (p : Progress) (t : Token) (rest : List Tree) : Option (Progress × List Tree) :=
  let name := (nameRun (.leaf t :: rest)).map fun (_, last) => (p.hold [], last)
  let held (found : Option (Inner × List Tree)) :=
    match found with
    | some (inner, last) => some (p.hold inner, last)
    | none => name
  if t.isWord "function" then held (closure rest)
  else if t.isWord "match" then held (choice rest)
  else if t.isWord "fn" then
    match arrow rest with
    | some (inner, last) => some ((p.keep inner).want .operand, last)
    | none => name
  else if t.isWord "new" then
    match namelessClass rest with
    | some (inner, last) => some (p.hold inner, last)
    | none => some (p.want .operand, rest)
  else if t.isWord "yield" then
    let keyed := { p with wanted := .operandOrEnd, keys := p.keys + 1 }
    match skipTrivia rest with
    | u :: last => if u.isWord "from" then some (p.want .operand, last) else some (keyed, rest)
    | [] => some (keyed, rest)
  else if t.isWord "static" then
    match skipTrivia rest with
    | u :: _ => if u.isWordOf ["function", "fn"] then some (p.want .operand, rest) else name
    | [] => name
  else if t.isWordOf prefixWords then some (p.want .operand, rest)
  else name

/-- One step where an operand is wanted. -/
def operandStep (p : Progress) (t : Tree) (rest : List Tree) : Option (Progress × List Tree) :=
  match t with
  | .group o inside _ =>
    if o.isSymbol "#[" then some (p.keep [(.terms, inside)], rest)
    else if o.isSymbol "\x7b" then none
    else if o.isSymbol "(" && isCast inside && startsOperand rest then
      some (p.want .operand, rest)
    else some (p.hold [(.terms, inside)], rest)
  | .leaf u =>
    if u.kind == .variable then some (p.holdPlace [], rest)
    else if u.kind == .literal || u.kind == .command then some (p.hold [], rest)
    else if let some (_, last) := numberRun (t :: rest) then some (p.hold [], last)
    else if u.isSymbolOf prefixSymbols then some (p.want .operand, rest)
    else if u.isSymbol "$" then p.dynamicVariable rest
    else if u.isSymbol "\\" then
      (nameRun (t :: rest)).map fun (_, last) => (p.hold [], last)
    else if u.isName then p.operandWord u rest
    else none

/-- The rest after the second half of a step up or down, which stands directly after the first. -/
def secondHalf (u : Token) : List Tree → Option (List Tree)
  | .leaf v :: rest =>
    if u.isSymbolOf ["+", "-"] && v.isSymbol u.text && v.isGlued then some rest else none
  | _ => none

/-- One step where an operator is wanted. -/
def operatorStep (p : Progress) (t : Tree) (rest : List Tree) : Option (Progress × List Tree) :=
  match t with
  | .group o inside _ =>
    if o.isSymbolOf ["(", "[", "#["] then some (p.holdPlace [(.terms, inside)], rest) else none
  | .leaf u =>
    if let some last := (secondHalf u rest).filter (fun _ => p.isPlace) then some (p.hold [], last)
    else if u.isSymbolOf infixSymbols || u.isWordOf infixWords then some (p.want .operand, rest)
    else if u.isSymbolOf ["->", "?->"] then some ({ p with wanted := .member, isPlace := true }, rest)
    else if u.isSymbol "::" then some ({ p with wanted := .member, isPlace := false }, rest)
    else if u.isSymbol "?" then
      match skipTrivia rest with
      | v :: last =>
        if v.isSymbol ":" then some (p.want .operand, last)
        else some ({ p with wanted := .operand, waiting := p.waiting + 1 }, rest)
      | [] => none
    else if u.isSymbol ":" && p.waiting != 0 then
      some ({ p with wanted := .operand, waiting := p.waiting - 1 }, rest)
    else if u.isSymbol "=>" && p.keys != 0 then
      some ({ p with wanted := .operand, keys := p.keys - 1 }, rest)
    else none

/-- One step where the name of a member is wanted. -/
def memberStep (p : Progress) (t : Tree) (rest : List Tree) : Option (Progress × List Tree) :=
  match t with
  | .group o inside _ =>
    if o.isSymbol "\x7b" then some ((p.keep [(.terms, inside)]).want .operator, rest) else none
  | .leaf u =>
    if u.isName then some (p.want .operator, rest)
    else if u.kind == .variable then some (p.holdPlace [], rest)
    else if u.isSymbol "$" then p.dynamicVariable rest
    else none

/-- Pass a tree that means nothing for the term. -/
def pass (p : Progress) (t : Tree) : Progress := { p with shown := p.shown.map (t :: ·) }

/-- The trees of the operand or sign that stands here, if it is shown as written. -/
def shownOperand (t : Tree) (rest : List Tree) : Option (List Tree) :=
  if isUnaryOperator t || isScalar t then some [t] else (numberRun (t :: rest)).map Prod.fst

/-- One step of a term that may go on. -/
def step (p : Progress) (t : Tree) (rest : List Tree) : Option (Progress × List Tree) :=
  match p.wanted with
  | .operand =>
    (p.operandStep t rest).map fun (q, last) =>
      let shown := do some ((← shownOperand t rest).reverse ++ (← p.shown))
      ({ q with shown }, last)
  | .operandOrEnd => ((p.operandStep t rest).or (p.operatorStep t rest)).map hidden
  | .operator => (p.operatorStep t rest).map hidden
  | .member => (p.memberStep t rest).map hidden
where
  /-- After a step that is not shown. -/
  hidden : Progress × List Tree → Progress × List Tree
    | (q, last) => ({ q with shown := none }, last)

end Progress

/-- A term that was read: the groups in it, its trees if they are signs and a literal at most,
whether it is complete, and the rest. -/
structure Term where
  inner : Inner
  shown : Option (List Tree)
  isComplete : Bool
  rest : List Tree
  deriving Inhabited

/-- Read a term from where it stands.  Where a semicolon may follow (`isOpen`), markup after a
complete term ends it. -/
def termFrom (isOpen : Bool) : Nat → Progress → List Tree → Term
  | 0, p, ts => ⟨p.inner.reverse, none, false, ts⟩
  | fuel + 1, p, ts =>
    let done : Term := ⟨p.inner.reverse, p.shown.map List.reverse, p.mayEnd, ts⟩
    match ts with
    | [] => done
    | t :: rest =>
      if t.isComment || (t.isMarkup && !(isOpen && p.mayEnd)) then
        termFrom isOpen fuel (p.pass t) rest
      else
        match p.step t rest with
        | some (p, rest) => termFrom isOpen fuel p rest
        | none => done

/-- Read a term with at most `fuel` steps. -/
def term (fuel : Nat) (isOpen : Bool) (ts : List Tree) : Term := termFrom isOpen fuel {} ts

/-- The rest after three points without gaps between them. -/
def afterSpread : List Tree → Option (List Tree)
  | .leaf a :: .leaf b :: .leaf c :: rest =>
    if a.isSymbol "." && b.isSymbol "." && b.isGlued && c.isSymbol "." && c.isGlued then some rest
    else none
  | _ => none

/-- Is the tree something between the terms in a group? -/
def isBetween (t : Tree) : Bool :=
  t.isSymbolOf [",", ";", "=>", ":"] || t.isKind .middle || t.isWord "as"

/-- How a group is read that stands where none is expected. -/
def strayRole : Tree → Inner
  | .group o inside _ => [(if o.isSymbol "\x7b" then .statements else .terms, inside)]
  | .leaf _ => []

/-- The groups in the terms of a group, and whether all terms are complete. -/
def termsFrom : Nat → List Tree → Inner × Bool
  | 0, _ => ([], false)
  | fuel + 1, ts =>
    match skipTrivia ts with
    | [] => ([], true)
    | t :: rest =>
      if isBetween t then termsFrom fuel rest
      else if let some rest := afterSpread (t :: rest) then termsFrom fuel rest
      else
        match Progress.step {} t rest with
        | some (p, rest) =>
          let one := termFrom false fuel p rest
          let (more, ok) := termsFrom fuel one.rest
          let isEnded := ((skipTrivia one.rest).head?.map isBetween).getD true
          (one.inner ++ more, ok && one.isComplete && isEnded)
        | none =>
          let (more, _) := termsFrom fuel rest
          (strayRole t ++ more, false)

/-- The groups in the terms of a group, and whether all terms are complete. -/
def terms (ts : List Tree) : Inner × Bool := termsFrom (ts.length + 1) ts

/-- The rest after a semicolon, which markup stands for as well; the flag says whether there was
one. -/
def semicolon (ts : List Tree) : Bool × List Tree :=
  match skipComments ts with
  | t :: rest =>
    if t.isSymbol ";" then (true, rest)
    else (t.isMarkup, t :: rest)
  | [] => (false, [])

end CodeIndex.Php
