import CodeIndex.Text.Blank

/-!
# Structure outside quotes

Parentheses, commas and semicolons count only outside quoted text.  One scan state
decides that for every cut: the end of a table body, the end of a statement and the
parts of a body.

* `closingParen_split` : the body, its closing parenthesis and the rest are the text.
* `statementEnd_append` : the statement and the rest are the text.
-/

namespace CodeIndex.Sql

open Text

/-- Where a scan stands: the quote it is inside of, and whether the last character was an
escaping backslash there. -/
structure QuoteState where
  quote : Option Char := none
  escaped : Bool := false
  deriving DecidableEq, Repr, Inhabited

namespace QuoteState

/-- The state outside quotes. -/
def outside : QuoteState := {}

/-- Read one character. -/
def step (s : QuoteState) (c : Char) : QuoteState :=
  match s.quote with
  | some q =>
    if s.escaped then ⟨some q, false⟩
    else if c = '\\' then ⟨some q, true⟩
    else if c = q then outside
    else s
  | none => if c = '\'' || c = '"' || c = '\x60' then ⟨some c, false⟩ else s

/-- Does the character stand outside quotes, and is no quote itself? -/
def structural (s : QuoteState) (c : Char) : Bool :=
  s.quote.isNone && !(c = '\'' || c = '"' || c = '\x60')

end QuoteState

/-- The text before and after the parenthesis that closes an opened one; `depth` counts the
parentheses opened since. -/
def closingParenFrom (s : QuoteState) (depth : Nat) :
    List Char → Option (List Char × List Char)
  | [] => none
  | c :: rest =>
    let next := s.step c
    let more (d : Nat) := (closingParenFrom next d rest).map fun (body, tail) => (c :: body, tail)
    if s.structural c then
      if c = '(' then more (depth + 1)
      else if c = ')' then
        if depth = 0 then some ([], rest) else more (depth - 1)
      else more depth
    else more depth

/-- The body of a definition whose opening parenthesis was read, and the text after the
parenthesis that closes it. -/
def closingParen (cs : List Char) : Option (List Char × List Char) :=
  closingParenFrom .outside 0 cs

/-- The text before the first semicolon outside quotes. -/
def statementEndFrom (s : QuoteState) : List Char → List Char
  | [] => []
  | c :: rest =>
    if s.structural c && c = ';' then [] else c :: statementEndFrom (s.step c) rest

/-- The text of a statement up to its semicolon, or all of it. -/
def statementEnd (cs : List Char) : List Char := statementEndFrom .outside cs

/-- Cut at the commas outside quotes and parentheses.  An unmatched closing parenthesis
leaves the depth at zero. -/
def piecesFrom (s : QuoteState) (depth : Nat) : List Char → List (List Char)
  | [] => [[]]
  | c :: rest =>
    let outer := s.structural c
    if outer && c = ',' && depth = 0 then [] :: piecesFrom (s.step c) depth rest
    else
      let depth' :=
        if outer && c = '(' then depth + 1 else if outer && c = ')' then depth - 1 else depth
      match piecesFrom (s.step c) depth' rest with
      | [] => [[c]]
      | piece :: more => (c :: piece) :: more

/-- The pieces of a body before trimming. -/
def pieces (body : List Char) : List (List Char) := piecesFrom .outside 0 body

/-- The parts of a body: its pieces, trimmed, without empty ones. -/
def splitTopLevel (body : List Char) : List (List Char) :=
  ((pieces body).map trim).filter (!·.isEmpty)

/-- The body, its closing parenthesis and the rest are the text. -/
theorem closingParenFrom_split : ∀ {cs : List Char} {s : QuoteState} {depth : Nat}
    {body tail : List Char}, closingParenFrom s depth cs = some (body, tail) →
      cs = body ++ ')' :: tail
  | [], _, _, _, _, h => by simp [closingParenFrom] at h
  | c :: rest, s, depth, body, tail, h => by
    simp only [closingParenFrom] at h
    have more : ∀ d, (closingParenFrom (s.step c) d rest).map
        (fun (b, t) => (c :: b, t)) = some (body, tail) → c :: rest = body ++ ')' :: tail := by
      intro d hd
      obtain ⟨⟨b, t⟩, hbt, heq⟩ := Option.map_eq_some_iff.mp hd
      simp only [Prod.mk.injEq] at heq
      obtain ⟨rfl, rfl⟩ := heq
      rw [closingParenFrom_split hbt]
      rfl
    split at h
    · split at h
      · exact more _ h
      · split at h
        · rename_i hclose
          split at h
          · simp only [Option.some.injEq, Prod.mk.injEq] at h
            obtain ⟨rfl, rfl⟩ := h
            simp [hclose]
          · exact more _ h
        · exact more _ h
    · exact more _ h

/-- The body, its closing parenthesis and the rest are the text. -/
theorem closingParen_split {cs body tail : List Char}
    (h : closingParen cs = some (body, tail)) : cs = body ++ ')' :: tail :=
  closingParenFrom_split h

/-- A statement is a beginning of the text. -/
theorem statementEndFrom_append : ∀ (cs : List Char) (s : QuoteState),
    ∃ rest, cs = statementEndFrom s cs ++ rest
  | [], _ => ⟨[], rfl⟩
  | c :: rest, s => by
    unfold statementEndFrom
    split
    · exact ⟨c :: rest, rfl⟩
    · obtain ⟨tail, h⟩ := statementEndFrom_append rest (s.step c)
      exact ⟨tail, by rw [List.cons_append, ← h]⟩

/-- A statement is a beginning of the text. -/
theorem statementEnd_append (cs : List Char) : ∃ rest, cs = statementEnd cs ++ rest :=
  statementEndFrom_append cs .outside

end CodeIndex.Sql
