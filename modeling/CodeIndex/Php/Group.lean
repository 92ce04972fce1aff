import CodeIndex.Php.Token

/-!
# Brackets

Tokens with the brackets in them closed: what stands between an opening bracket and the
one that closes it is one group.  A bracket that closes passes over weaker ones that were
left open; an opening bracket that is never closed, and a closing one that closes nothing,
stay tokens.

* `tokensOf_group` : grouping loses no token.
-/

namespace CodeIndex.Php

/-- A token, or a group in brackets.  A text with code inside is a group as well. -/
inductive Tree where
  | leaf (token : Token)
  | group (opener : Token) (inside : List Tree) (closer : Token)
  deriving Inhabited

mutual

/-- The tokens of a tree. -/
def Tree.tokens : Tree → List Token
  | .leaf t => [t]
  | .group o inside c => o :: (tokensOf inside ++ [c])

/-- The tokens of trees. -/
def tokensOf : List Tree → List Token
  | [] => []
  | t :: rest => t.tokens ++ tokensOf rest

end

/-- The source text of trees. -/
def treeText (ts : List Tree) : String := sourceText (tokensOf ts)

namespace Tree

/-- Does a test hold of the token that the tree is? -/
def isLeaf (test : Token → Bool) : Tree → Bool
  | .leaf t => test t
  | .group _ _ _ => false

/-- Is the tree a comment? -/
def isComment (t : Tree) : Bool := t.isLeaf Token.isComment

/-- Is the tree markup? -/
def isMarkup (t : Tree) : Bool := t.isLeaf Token.isMarkup

/-- Is the tree a comment or markup? -/
def isTrivia (t : Tree) : Bool := t.isLeaf Token.isTrivia

/-- Is the tree a name? -/
def isName (t : Tree) : Bool := t.isLeaf Token.isName

/-- Is the tree this word, in any letter case? -/
def isWord (word : String) (t : Tree) : Bool := t.isLeaf (Token.isWord word)

/-- Is the tree one of these words, in any letter case? -/
def isWordOf (words : List String) (t : Tree) : Bool := t.isLeaf (Token.isWordOf words)

/-- Is the tree this punctuation? -/
def isSymbol (sym : String) (t : Tree) : Bool := t.isLeaf (Token.isSymbol sym)

/-- Is the tree one of these pieces of punctuation? -/
def isSymbolOf (syms : List String) (t : Tree) : Bool := t.isLeaf (Token.isSymbolOf syms)

/-- Is the tree a token of this kind? -/
def isKind (kind : TokenKind) (t : Tree) : Bool := t.isLeaf (·.kind == kind)

/-- The text of a comment. -/
def commentText? : Tree → Option String
  | .leaf t => if t.isComment then some t.text else none
  | .group _ _ _ => none

/-- The inside of a group with this opening bracket. -/
def inside? (bracket : String) : Tree → Option (List Tree)
  | .group o inside _ => if o.isSymbol bracket then some inside else none
  | .leaf _ => none

/-- Is the tree a group with this opening bracket? -/
def isGroup (bracket : String) (t : Tree) : Bool := (t.inside? bracket).isSome

/-- Where the tree starts in the source. -/
def place : Tree → Nat
  | .leaf t => t.place
  | .group o _ _ => o.place

/-- Where the last token of the tree starts in the source. -/
def lastPlace : Tree → Nat
  | .leaf t => t.place
  | .group _ _ c => c.place

end Tree

/-- Drop the comments in front. -/
def skipComments (ts : List Tree) : List Tree := ts.dropWhile Tree.isComment

/-- Drop the comments and the markup in front. -/
def skipTrivia (ts : List Tree) : List Tree := ts.dropWhile Tree.isTrivia

/-- Drop the comments and the markup at both ends. -/
def trimTrivia (ts : List Tree) : List Tree :=
  ((skipTrivia ts).reverse.dropWhile Tree.isTrivia).reverse

/-- How strong a bracket is; none when the token opens nothing. -/
def opening? (t : Token) : Option Nat :=
  if t.kind == .opening then some 3
  else if t.isSymbol "\x7b" then some 2
  else if t.isSymbolOf ["(", "[", "#["] then some 1
  else none

/-- Does the second token close what the first one opens? -/
def isClosedBy (opener closer : Token) : Bool :=
  if opener.kind == .opening then closer.kind == .closing
  else if opener.isSymbol "\x7b" then closer.isSymbol "\x7d"
  else if opener.isSymbol "(" then closer.isSymbol ")"
  else opener.isSymbolOf ["[", "#["] && closer.isSymbol "]"

/-- How strong a closing bracket is; none when the token closes nothing. -/
def closing? (t : Token) : Option Nat :=
  if t.kind == .closing then some 3
  else if t.isSymbol "\x7d" then some 2
  else if t.isSymbolOf [")", "]"] then some 1
  else none

/-- Brackets that are open: the opening token and the trees in front of it, last one first. -/
abbrev OpenGroups := List (Token × List Tree)

/-- Close the innermost bracket that `closer` closes, and leave those in it open; `inside` are
the trees since the innermost bracket, last one first. -/
def closeWith (closer : Token) (strength : Nat) :
    OpenGroups → List Tree → Option (OpenGroups × List Tree)
  | [], _ => none
  | (opener, before) :: outer, inside =>
    if isClosedBy opener closer then
      some (outer, .group opener inside.reverse closer :: before)
    else if (opening? opener).getD 0 ≤ strength then
      closeWith closer strength outer (inside ++ .leaf opener :: before)
    else none

/-- Leave all brackets open; `inside` are the trees since the innermost one, last one first. -/
def leaveOpen : OpenGroups → List Tree → List Tree
  | [], inside => inside.reverse
  | (opener, before) :: outer, inside => leaveOpen outer (inside ++ .leaf opener :: before)

/-- Group tokens; `inside` are the trees since the innermost bracket, last one first. -/
def groupFrom (opened : OpenGroups) (inside : List Tree) : List Token → List Tree
  | [] => leaveOpen opened inside
  | t :: rest =>
    if (opening? t).isSome then groupFrom ((t, inside) :: opened) [] rest
    else
      match (closing? t).bind fun strength => closeWith t strength opened inside with
      | some (outer, trees) => groupFrom outer trees rest
      | none => groupFrom opened (.leaf t :: inside) rest

/-- Group tokens by their brackets. -/
def group (ts : List Token) : List Tree := groupFrom [] [] ts

/-- The tokens of open brackets, and of the trees in front of each. -/
def openTokens : OpenGroups → List Token
  | [] => []
  | (opener, before) :: outer => openTokens outer ++ tokensOf before.reverse ++ [opener]

/-- The tokens of two runs of trees stand one behind the other. -/
theorem tokensOf_append (ts us : List Tree) : tokensOf (ts ++ us) = tokensOf ts ++ tokensOf us := by
  induction ts with
  | nil => simp [tokensOf]
  | cons t ts ih => simp [tokensOf, ih]

/-- A leaf holds the one token. -/
theorem tokensOf_leaf_cons (t : Token) (ts : List Tree) :
    tokensOf (.leaf t :: ts) = t :: tokensOf ts := by simp [tokensOf, Tree.tokens]

/-- Leaving brackets open keeps the tokens. -/
theorem tokensOf_leaveOpen (opened : OpenGroups) (inside : List Tree) :
    tokensOf (leaveOpen opened inside) = openTokens opened ++ tokensOf inside.reverse := by
  induction opened generalizing inside with
  | nil => simp [leaveOpen, openTokens]
  | cons frame outer ih =>
    obtain ⟨opener, before⟩ := frame
    simp [leaveOpen, ih, openTokens, tokensOf_append, tokensOf_leaf_cons]

/-- Closing a bracket adds the closing token. -/
theorem tokensOf_closeWith {closer : Token} {strength : Nat} {opened outer : OpenGroups}
    {inside trees : List Tree} (h : closeWith closer strength opened inside = some (outer, trees)) :
    openTokens outer ++ tokensOf trees.reverse =
      openTokens opened ++ tokensOf inside.reverse ++ [closer] := by
  induction opened generalizing inside with
  | nil => simp [closeWith] at h
  | cons frame rest ih =>
    obtain ⟨opener, before⟩ := frame
    simp only [closeWith] at h
    split at h
    · obtain ⟨rfl, rfl⟩ := by simpa using h
      simp [openTokens, tokensOf_append, tokensOf, Tree.tokens]
    · split at h
      · simp [ih h, openTokens, tokensOf_append, tokensOf_leaf_cons]
      · simp at h

/-- Grouping further tokens keeps them, and the ones in front. -/
theorem tokensOf_groupFrom (ts : List Token) (opened : OpenGroups) (inside : List Tree) :
    tokensOf (groupFrom opened inside ts) = openTokens opened ++ tokensOf inside.reverse ++ ts := by
  induction ts generalizing opened inside with
  | nil => simp [groupFrom, tokensOf_leaveOpen]
  | cons t ts ih =>
    simp only [groupFrom]
    split
    · simp [ih, openTokens, tokensOf]
    · split
      · next outer trees h =>
        obtain ⟨strength, _, hclose⟩ := Option.bind_eq_some_iff.mp h
        rw [ih, tokensOf_closeWith hclose]
        simp
      · simp [ih, tokensOf_append, tokensOf, Tree.tokens]

/-- Grouping loses no token and adds none. -/
theorem tokensOf_group (ts : List Token) : tokensOf (group ts) = ts := by
  simp [group, tokensOf_groupFrom, openTokens, tokensOf]

end CodeIndex.Php
