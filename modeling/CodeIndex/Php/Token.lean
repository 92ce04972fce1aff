import CodeIndex.Text.Slice

/-!
# Tokens of a source text

A token is a piece of source text together with the gap in front of it, so that the
text of a run of tokens can be given back exactly as it was written.  Comments are
tokens of their own, and so is each stretch of markup behind code.  A text with
code inside is cut where the code starts and ends, and that code has tokens as well.

A token is spelled as its kind demands, and a gap holds nothing but separators.
-/

namespace CodeIndex.Php

/-- Is `c` one of the characters that separate tokens? -/
def isGap (c : Char) : Bool :=
  let n := c.toNat
  (9 ≤ n && n ≤ 13) || n == 0x20 || n == 0xa0 || n == 0x200b || n == 0x2060 || n == 0xfeff

/-- May `c` start a name?  Outside ASCII every character may that is no gap. -/
def isNameStart (c : Char) : Bool :=
  if c.toNat < 128 then c.isAlpha || c == '_' else !isGap c

/-- May `c` continue a name? -/
def isNameChar (c : Char) : Bool := isNameStart c || c.isDigit

/-- Is the text a name? -/
def isIdentifier : List Char → Bool
  | [] => false
  | c :: rest => isNameStart c && rest.all isNameChar

/-- Where a name may start, the characters that may continue it are one. -/
theorem isIdentifier_takeWhile {cs : List Char}
    (h : (cs.head?.map isNameStart).getD false = true) :
    isIdentifier (cs.takeWhile isNameChar) = true := by
  cases cs with
  | nil => simp at h
  | cons c rest =>
    replace h : isNameStart c = true := by simpa using h
    simp [isNameChar, h, isIdentifier]

/-- What a token is. -/
inductive TokenKind where
  /-- A line, hash or block comment. -/
  | comment
  /-- Text between two stretches of code, with the tags around it. -/
  | markup
  /-- An identifier or a keyword. -/
  | name
  /-- A variable with its dollar sign. -/
  | variable
  /-- An integer or a floating-point number. -/
  | number
  /-- A quoted text, heredoc or nowdoc without code inside. -/
  | literal
  /-- A shell command in backticks without code inside. -/
  | command
  /-- The part of a text in front of the first code inside. -/
  | opening
  /-- The part of a text between two pieces of code inside. -/
  | middle
  /-- The part of a text after the last code inside. -/
  | closing
  /-- Punctuation. -/
  | symbol
  deriving DecidableEq, Repr, Inhabited

/-- May a token of this kind be spelled like this?  A name is an identifier and a variable one
behind a dollar sign.  Comments and markup begin with a mark of their own. -/
def TokenKind.spells (kind : TokenKind) (text : List Char) : Bool :=
  match kind with
  | .name => isIdentifier text
  | .variable => text.head? == some '$' && isIdentifier text.tail
  | .comment => text.head? == some '/' || text.head? == some '#'
  | .markup => text.head? == some '?'
  | _ => true

/-- What separates two tokens. -/
structure Gap where
  text : String
  isBlank : text.toList.all isGap = true

namespace Gap

/-- Nothing between them. -/
def none : Gap := ⟨"", rfl⟩

/-- The gap that a text starts with. -/
def before (cs : List Char) : Gap where
  text := String.ofList (cs.takeWhile isGap)
  isBlank := by rw [String.toList_ofList, List.all_takeWhile]

end Gap

/-- A piece of source text and the gap in front of it. -/
structure Token where
  kind : TokenKind
  text : String
  gap : Gap := .none
  /-- How many other ends the text could have had that starts here. -/
  spare : Nat := 0
  /-- How many characters of the source stand in front of the text. -/
  place : Nat := 0
  isSpelled : kind.spells text.toList = true := by rfl

instance : Inhabited Token := ⟨{ kind := .symbol, text := "" }⟩

namespace Token

/-- A token from its characters. -/
def of (kind : TokenKind) (text : List Char) (gap : Gap := .none)
    (h : kind.spells text = true := by rfl) : Token where
  kind
  text := String.ofList text
  gap
  isSpelled := by rwa [String.toList_ofList]

/-- A variable of this name. -/
def ofVariable (name : List Char) (h : isIdentifier name = true) : Token :=
  .of .variable ('$' :: name) .none h

/-- Does the token stand directly after the one in front of it? -/
def isGlued (t : Token) : Bool := t.gap.text.isEmpty

/-- Is the token a comment? -/
def isComment (t : Token) : Bool := t.kind == .comment

/-- Is the token markup? -/
def isMarkup (t : Token) : Bool := t.kind == .markup

/-- Is the token a comment or markup? -/
def isTrivia (t : Token) : Bool := t.isComment || t.isMarkup

/-- Is the token this punctuation? -/
def isSymbol (sym : String) (t : Token) : Bool := t.kind == .symbol && t.text == sym

/-- Is the token one of these pieces of punctuation? -/
def isSymbolOf (syms : List String) (t : Token) : Bool := t.kind == .symbol && syms.contains t.text

/-- Is the token an identifier or a keyword? -/
def isName (t : Token) : Bool := t.kind == .name

/-- Is the token this word, in any letter case? -/
def isWord (word : String) (t : Token) : Bool := t.kind == .name && sameName t.text word

/-- Is the token one of these words, in any letter case? -/
def isWordOf (words : List String) (t : Token) : Bool :=
  t.kind == .name && words.any (sameName t.text ·)

end Token

/-- The source text of a run of tokens, from the first to the last, gaps included. -/
def sourceText : List Token → String
  | [] => ""
  | t :: rest => rest.foldl (fun text u => text ++ u.gap.text ++ u.text) t.text

end CodeIndex.Php
