import CodeIndex.Php.Number
import CodeIndex.Php.Token

/-!
# Reading tokens

Code starts behind the first opening tag.  In code, a closing tag starts markup, up to the
next opening tag.  Comments, names, variables and numbers are one token
each, and so are quoted texts and heredocs unless there is code inside.  A mark that
opens a text which is never closed is punctuation.

A heredoc can have more than one end: its label may start a line of the text as well.
Which end is meant shows only in what follows, so a reading is given a choice for every
heredoc of that sort, and its first token says how many other ends there were.
-/

namespace CodeIndex.Php

open Text

/-- The text through the next opening tag, or all of it, and the rest; `done` holds what was
read, last character first. -/
def throughOpenTag (done : List Char) : List Char → List Char × List Char
  | [] => (done.reverse, [])
  | '<' :: '?' :: rest =>
    let tail :=
      if sameIgnoringCase (rest.take 3) ['p', 'h', 'p'] then rest.take 3
      else if rest.head? = some '=' then ['=']
      else []
    (done.reverse ++ '<' :: '?' :: tail, rest.drop tail.length)
  | c :: rest => throughOpenTag (c :: done) rest

/-- What is read through an opening tag starts with what was read before. -/
theorem prefix_throughOpenTag (done cs : List Char) :
    done.reverse <+: (throughOpenTag done cs).1 := by
  fun_induction throughOpenTag done cs <;> grind [List.prefix_append]

/-- Markup behind code starts with the closing tag. -/
theorem spells_throughOpenTag (cs : List Char) :
    TokenKind.markup.spells (throughOpenTag ['>', '?'] cs).1 = true := by
  obtain ⟨rest, hrest⟩ := prefix_throughOpenTag ['>', '?'] cs
  rw [← hrest]
  rfl

/-- The text of a line comment and the rest.  It ends before a line end or a closing tag; a
question mark directly before the line end takes the line end along. -/
def lineComment (done : List Char) : List Char → List Char × List Char
  | [] => (done.reverse, [])
  | '?' :: '\n' :: rest => (('\n' :: '?' :: done).reverse, rest)
  | '?' :: '\r' :: '\n' :: rest => (('\n' :: '\r' :: '?' :: done).reverse, rest)
  | '?' :: c :: rest =>
    if c = '>' || c = '\r' then (done.reverse, '?' :: c :: rest)
    else lineComment (c :: '?' :: done) rest
  | c :: rest =>
    if c = '\n' || c = '\r' || c = '?' then (done.reverse, c :: rest)
    else lineComment (c :: done) rest

/-- The text of a line comment starts with what was read before. -/
theorem prefix_lineComment (done cs : List Char) : done.reverse <+: (lineComment done cs).1 := by
  fun_induction lineComment done cs <;> grind [List.prefix_append]

/-- The text of a block comment after its opening, and the rest. -/
def blockComment (done : List Char) : List Char → Option (List Char × List Char)
  | [] => none
  | '*' :: '/' :: rest => some (('/' :: '*' :: done).reverse, rest)
  | c :: rest => blockComment (c :: done) rest

/-- The text of a block comment starts with what was read before. -/
theorem prefix_blockComment {done cs text rest : List Char}
    (h : blockComment done cs = some (text, rest)) : done.reverse <+: text := by
  fun_induction blockComment done cs <;> grind [List.prefix_append]

/-- A comment that starts here. -/
def comment (cs : List Char) : Option (List Char × List Char) :=
  match cs with
  | '/' :: '/' :: rest => some (lineComment ['/', '/'] rest)
  | '/' :: '*' :: rest => blockComment ['*', '/'] rest
  | '#' :: rest =>
    match rest with
    | [] => some (['#'], [])
    | c :: more =>
      if c = '[' then none
      else if c = '?' || c = '\r' || c = '\n' then some (['#'], rest)
      else some (lineComment [c, '#'] more)
  | _ => none

/-- A comment starts with a slash or a hash. -/
theorem spells_comment {cs text rest : List Char} (h : comment cs = some (text, rest)) :
    TokenKind.comment.spells text = true := by
  have hspells : ∀ c done, c = '/' ∨ c = '#' → c :: done <+: text →
      TokenKind.comment.spells text = true := by
    rintro c done hc ⟨back, rfl⟩
    rcases hc with rfl | rfl <;> rfl
  unfold comment at h
  split at h
  · obtain rfl : _ = text := congrArg Prod.fst (Option.some.inj h)
    exact hspells _ _ (.inl rfl) (prefix_lineComment ['/', '/'] _)
  · exact hspells _ _ (.inl rfl) (prefix_blockComment h)
  · split at h
    · cases h
      rfl
    · split at h
      · cases h
      · split at h
        · cases h
          rfl
        · obtain rfl : _ = text := congrArg Prod.fst (Option.some.inj h)
          exact hspells _ _ (.inr rfl) (prefix_lineComment [_, '#'] _)
  · cases h

/-- The rest after gaps and comments. -/
def afterComments : Nat → List Char → List Char
  | 0, cs => cs
  | fuel + 1, cs =>
    let rest := cs.dropWhile isGap
    match comment rest with
    | some (_, after) => afterComments fuel after
    | none => rest

/-- The rest after gaps, comments and markup. -/
def afterTrivia : Nat → List Char → List Char
  | 0, cs => cs
  | fuel + 1, cs =>
    match afterComments (fuel + 1) cs with
    | '?' :: '>' :: rest => afterTrivia fuel (throughOpenTag [] rest).2
    | rest => rest

/-- Punctuation of more than one character, longer pieces first.  Points, pluses and minuses stay
single tokens: what a run of them means depends on where it stands. -/
def longSymbols : List (List Char) :=
  ["<=>", "**=", "<<=", ">>=", "===", "!==", "??=", "?->", "&&", "||", "??", "**", "->", "=>",
    "::", "==", "!=", "<>", "<=", ">=", "<<", ">>", "+=", "-=", "*=", "/=", ".=", "%=", "&=", "|=",
    "^=", "#["].map String.toList

/-- The punctuation that starts here. -/
def symbolText (c : Char) (rest : List Char) : List Char :=
  (longSymbols.find? fun sym => startsWith sym (c :: rest)).getD [c]

/-- The text up to the closing mark, or up to code inside, and the rest.  The flag says which:
code starts with a dollar sign after a brace, or with a brace after a dollar sign. -/
def templateText (close : Char) (done : List Char) :
    List Char → Option (List Char × Bool × List Char)
  | [] => none
  | '\\' :: c :: rest => templateText close (c :: '\\' :: done) rest
  | '\x7b' :: '$' :: rest => some (('\x7b' :: done).reverse, true, '$' :: rest)
  | '$' :: '\x7b' :: rest => some (('\x7b' :: '$' :: done).reverse, true, rest)
  | c :: rest =>
    if c = close then some ((c :: done).reverse, false, rest)
    else templateText close (c :: done) rest

/-- The text of a single-quoted literal after its quote, and the rest. -/
def plainText (done : List Char) : List Char → Option (List Char × List Char)
  | [] => none
  | '\\' :: c :: rest => plainText (c :: '\\' :: done) rest
  | c :: rest =>
    if c = '\'' then some ((c :: done).reverse, rest) else plainText (c :: done) rest

/-- Is `c` an ASCII blank? -/
def isBlankChar (c : Char) : Bool := (9 ≤ c.toNat && c.toNat ≤ 13) || c == ' '

/-- Does `c` end a line? -/
def isLineEnd (c : Char) : Bool := c == '\n' || c == '\r'

/-- May `c` stand in the label of a heredoc? -/
def isLabelChar (c : Char) : Bool := c.isAlphanum || c == '_' || 128 ≤ c.toNat

/-- The rest after the label, which no further character of a label follows. -/
def afterLabel (label cs : List Char) : Option (List Char) :=
  match stripStart? label cs with
  | none => none
  | some rest => if (rest.head?.map isLabelChar).getD false then none else some rest

/-- What stands between the three angles of a heredoc and its text. -/
structure HeredocHead where
  label : List Char
  /-- A text in which nothing has a meaning of its own. -/
  isRaw : Bool
  rest : List Char
  deriving Inhabited

/-- The head of a heredoc after its three angles. -/
def heredocHead (fuel : Nat) (cs : List Char) : Option HeredocHead :=
  let near := cs.dropWhile isBlankChar
  let start := if (near.head?.map isLabelChar).getD false then near else afterTrivia fuel cs
  let quote := start.take 1 |>.filter fun c => c = '\'' || c = '"'
  let labelled := if quote.isEmpty then start else (start.drop 1).dropWhile isBlankChar
  let label := labelled.takeWhile isLabelChar
  if label.isEmpty then none
  else
    (stripStart? quote (labelled.drop label.length)).map fun rest =>
      { label, isRaw := quote == ['\''], rest }

/-- The rest after the end of a line that has only blanks and comments left. -/
def afterLine : Nat → List Char → Option (List Char)
  | 0, _ => none
  | fuel + 1, cs =>
    match cs.dropWhile fun c => isGap c && !isLineEnd c with
    | '\r' :: '\n' :: rest => some rest
    | c :: rest =>
      if isLineEnd c then some rest
      else (comment (c :: rest)).bind fun (_, after) => afterLine fuel after
    | [] => none

/-- Does a line that starts with the label end the text for certain?  A semicolon, a comma, a
closing parenthesis or the line end follows. -/
def isSureEnd (after : List Char) : Bool :=
  let closes (c : Char) := c == ';' || c == ',' || c == ')'
  (after.head?.map fun c => isBlankChar c || closes c).getD false &&
    ((after.dropWhile fun c => isBlankChar c && !isLineEnd c).head?.map fun c =>
      closes c || isLineEnd c).getD false

/-- Words that may stand after a text. -/
def joiningWords : List (List Char) :=
  ["and", "as", "instanceof", "or", "xor"].map String.toList

/-- Signs that start a value and never join two. -/
def valueSigns : List Char := ['$', '\'', '"', '\x60', '@', '~', '\\']

/-- May this stand after a text?  What starts another value may not. -/
def mayFollow (cs : List Char) : Bool :=
  match cs with
  | [] => true
  | '!' :: rest => rest.head? == some '='
  | c :: rest =>
    if isNameStart c then
      joiningWords.any (sameIgnoringCase (c :: rest.takeWhile isNameChar))
    else !(c.isDigit || valueSigns.contains c)

/-- What was read of the text of a heredoc. -/
structure HeredocPart where
  /-- The tokens in front, last one first. -/
  tokens : List Token := []
  /-- The gap in front of the piece that is being read. -/
  gap : Gap := .none
  /-- The piece that is being read, last character first. -/
  piece : List Char := []
  deriving Inhabited

namespace HeredocPart

/-- The piece with more characters. -/
def read (h : HeredocPart) (cs : List Char) : HeredocPart :=
  { h with piece := cs.reverse ++ h.piece }

/-- Cut the text before code inside. -/
def cut (h : HeredocPart) : HeredocPart :=
  let text := h.piece.reverse
  let token : Token := if h.tokens.isEmpty then .of .opening text h.gap else .of .middle text h.gap
  { h with tokens := token :: h.tokens, piece := [] }

end HeredocPart

/-- A possible end of a heredoc: what was read before its last line, that line, and the rest
after the label. -/
structure HeredocEnd where
  part : HeredocPart
  line : List Char
  rest : List Char
  /-- Does the label start the line? -/
  isDirect : Bool := true
  deriving Inhabited

/-- The tokens of a heredoc with this end. -/
def HeredocEnd.tokens (e : HeredocEnd) : List Token :=
  let text := e.part.piece.reverse ++ e.line.take (e.line.length - e.rest.length)
  let token : Token :=
    if e.part.tokens.isEmpty then .of .literal text e.part.gap else .of .closing text e.part.gap
  (token :: e.part.tokens).reverse

/-- Note a possible end, unless it was noted before; ends are last first. -/
def noteEnd (e : HeredocEnd) (ends : List HeredocEnd) : List HeredocEnd :=
  match ends with
  | other :: _ =>
    if !other.isDirect && other.rest.length == e.rest.length then ends else e :: ends
  | [] => [e]

/-- Can only trivia start like this? -/
def startsTrivia (cs : List Char) : Bool :=
  match cs with
  | '/' :: _ => true
  | '#' :: _ => true
  | '?' :: _ => true
  | c :: _ => isGap c && !isBlankChar c
  | [] => false

/-- The end at the start of a line, if there is one, and whether it is sure.  A raw text has an
end that is not sure only on the last line of the source. -/
def endAtLine (fuel : Nat) (head : HeredocHead) (part : HeredocPart) (cs : List Char) :
    Option (HeredocEnd × Bool) :=
  let indented := cs.dropWhile fun c => isBlankChar c && !isLineEnd c
  match stripStart? head.label indented with
  | some rest =>
    if isSureEnd rest then some (⟨part, cs, rest, true⟩, true) else possible indented
  | none => possible indented
where
  /-- An end that is not sure; trivia may stand in front of the label. -/
  possible (indented : List Char) : Option (HeredocEnd × Bool) :=
    if head.isRaw && (cs.dropWhile isBlankChar).any isLineEnd then none
    else
      match afterLabel head.label indented with
      | some rest => some (⟨part, cs, rest, true⟩, false)
      | none =>
        if startsTrivia indented then
          (afterLabel head.label (afterTrivia fuel indented)).map fun rest =>
            (⟨part, cs, rest, false⟩, false)
        else none

/-- What one reading step gives: tokens and the rest. -/
structure Lexed where
  tokens : List Token
  rest : List Char
  deriving Inhabited

/-- Put a gap in front of the first token. -/
def withGap (gap : Gap) : List Token → List Token
  | [] => []
  | t :: rest => { t with gap } :: rest

/-- Does a byte mark and a quote start here? -/
def isMarkedQuote (cs : List Char) : Bool :=
  match cs with
  | b :: q :: _ => (b = 'b' || b = 'B') && (q = '\'' || q = '"')
  | _ => false

/-- A token of one piece that starts here, a point with the digits after it, or two equal signs. -/
def simpleToken (c : Char) (rest : List Char) : Lexed :=
  let cs := c :: rest
  let run (token : Token) : Lexed := { tokens := [token], rest := cs.drop token.text.length }
  if h : c = '$' ∧ (rest.head?.map isNameStart).getD false then
    run (.ofVariable (rest.takeWhile isNameChar) (isIdentifier_takeWhile h.2))
  else if c.isDigit then run (.of .number (numberText cs))
  else if c = '.' && (rest.head?.map Char.isDigit).getD false then
    let digits := afterPointText rest
    { tokens := [.of .symbol ['.'], .of .number digits], rest := rest.drop digits.length }
  else if (c = '+' || c = '-') && rest.head? = some c then
    { tokens := [.of .symbol [c], .of .symbol [c]], rest := rest.drop 1 }
  else if h : isNameStart c then
    run (.of .name (cs.takeWhile isNameChar) .none (isIdentifier_takeWhile h))
  else run (.of .symbol (symbolText c rest))

/-- Say how many other ends there were, in the first token. -/
def withSpare (spare : Nat) : List Token → List Token
  | [] => []
  | t :: rest => { t with spare } :: rest

/-- Choose one of several ends; an end that is not there counts as the last.  Ends after which
something stands that cannot follow a text are left out, unless there are no others. -/
def chooseEnd (fuel choice : Nat) (ends : List HeredocEnd) : Option Lexed :=
  let likely := ends.filter fun e => mayFollow (afterComments fuel e.rest)
  let ends := if likely.isEmpty then ends else likely
  ((ends[choice]?).or ends.getLast?).map fun e =>
    { tokens := withSpare (ends.length - 1) e.tokens, rest := e.rest }

mutual

/-- Read the text that starts here, if it is closed. -/
def textToken : Nat → Nat → List Char → Option Lexed
  | 0, _, _ => none
  | fuel + 1, choice, cs =>
    let whole (tokens : List Token × List Char) : Lexed := { tokens := tokens.1, rest := tokens.2 }
    let marked := isMarkedQuote cs
    let mark := if marked then cs.take 1 else []
    match if marked then cs.drop 1 else cs with
    | '\'' :: rest =>
      (plainText ('\'' :: mark) rest).map fun (text, rest) =>
        { tokens := [.of .literal text], rest }
    | '"' :: rest => (templateFrom fuel '"' ('"' :: mark) .none [] rest).map whole
    | '\x60' :: rest => (templateFrom fuel '\x60' ['\x60'] .none [] rest).map whole
    | '<' :: '<' :: '<' :: rest =>
      match heredocHead fuel rest with
      | none => none
      | some head =>
        match afterLabel head.label (head.rest.dropWhile isBlankChar) with
        | some after => chooseEnd fuel choice [⟨{}, cs, after, true⟩]
        | none =>
          match afterLine fuel head.rest with
          | none => none
          | some body =>
            let line := cs.take (cs.length - body.length)
            chooseEnd fuel choice (heredocFrom fuel head { piece := line.reverse } [] true body)
    | _ => none

/-- Read the rest of a text with code inside.  `piece` is what was read of the current piece,
last character first, and `done` holds the tokens in front, last one first. -/
def templateFrom : Nat → Char → List Char → Gap → List Token → List Char →
    Option (List Token × List Char)
  | 0, _, _, _, _, _ => none
  | fuel + 1, close, piece, gap, done, cs =>
    match templateText close piece cs with
    | none => none
    | some (text, false, rest) =>
      let whole : Token := if close = '\x60' then .of .command text gap else .of .literal text gap
      let token := if done.isEmpty then whole else .of .closing text gap
      some ((token :: done).reverse, rest)
    | some (text, true, rest) =>
      let token : Token := if done.isEmpty then .of .opening text gap else .of .middle text gap
      match embedded fuel 0 (token :: done) rest with
      | none => none
      | some (done, gap, rest) => templateFrom fuel close ['\x7d'] gap done rest

/-- Read code inside a text up to the brace that closes it: the tokens, last one first, the gap
before the brace, and the rest after it.  There is no choice inside a text. -/
def embedded : Nat → Nat → List Token → List Char → Option (List Token × Gap × List Char)
  | 0, _, _, _ => none
  | fuel + 1, depth, done, cs =>
    let gap := Gap.before cs
    match cs.dropWhile isGap with
    | [] => none
    | c :: rest =>
      if c = '\x7d' && depth = 0 then some (done, gap, rest)
      else
        let one := lexeme fuel 0 (c :: rest)
        let depth :=
          if c = '\x7b' then depth + 1 else if c = '\x7d' then depth - 1 else depth
        embedded fuel depth ((withGap gap (withSpare 0 one.tokens)).reverse ++ done) one.rest

/-- Read the text of a heredoc to its sure end or to the end of the source: the ends it may
have, in order; `ends` are those found, last one first. -/
def heredocFrom : Nat → HeredocHead → HeredocPart → List HeredocEnd → Bool → List Char →
    List HeredocEnd
  | 0, _, _, ends, _, _ => ends.reverse
  | fuel + 1, head, part, ends, isStart, cs =>
    match if isStart then endAtLine fuel head part cs else none with
    | some (sure, true) => (noteEnd sure ends).reverse
    | found =>
      let ends := match found with
        | some (possible, _) => noteEnd possible ends
        | none => ends
      let code (lead rest : List Char) :=
        match embedded fuel 0 (part.read lead).cut.tokens rest with
        | none => ends.reverse
        | some (tokens, gap, rest) =>
          heredocFrom fuel head { tokens, gap, piece := ['\x7d'] } ends false rest
      match head.isRaw, cs with
      | _, [] => ends.reverse
      | false, '\x7b' :: '$' :: rest => code ['\x7b'] ('$' :: rest)
      | false, '$' :: '\x7b' :: rest => code ['$', '\x7b'] rest
      | isRaw, c :: rest =>
        match !isRaw && c == '\\', rest with
        | true, d :: more =>
          if isLineEnd d then heredocFrom fuel head (part.read [c]) ends false rest
          else heredocFrom fuel head (part.read [c, d]) ends false more
        | _, _ =>
          let isStart := c = '\n' || (c = '\r' && rest.head? != some '\n')
          heredocFrom fuel head (part.read [c]) ends isStart rest

/-- Read the tokens of one piece of code that starts here. -/
def lexeme : Nat → Nat → List Char → Lexed
  | 0, _, _ => { tokens := [], rest := [] }
  | _ + 1, _, [] => { tokens := [], rest := [] }
  | fuel + 1, choice, c :: rest =>
    if c = '?' && rest.head? = some '>' then
      let found := throughOpenTag ['>', '?'] (rest.drop 1)
      { tokens := [.of .markup found.1 .none (spells_throughOpenTag _)], rest := found.2 }
    else
      match h : comment (c :: rest) with
      | some (text, after) =>
        { tokens := [.of .comment text .none (spells_comment h)], rest := after }
      | none => (textToken fuel choice (c :: rest)).getD (simpleToken c rest)

end

/-- Read the tokens of code with a choice for each heredoc that has several ends.  `room`
bounds the steps within one piece, and `done` holds the tokens read, last one first. -/
def lexFrom (room : Nat) : Nat → List Nat → List Token → List Char → List Token
  | 0, _, done, _ => done.reverse
  | fuel + 1, choices, done, cs =>
    match cs.dropWhile isGap with
    | [] => done.reverse
    | c :: rest =>
      let one := lexeme room (choices.headD 0) (c :: rest)
      let later := if one.tokens.all (·.spare == 0) then choices else choices.tail
      lexFrom room fuel later ((withGap (Gap.before cs) one.tokens).reverse ++ done) one.rest

/-- Tokens with their places, and `place` characters in front of them; `done` holds those
placed, last one first. -/
def placeFrom (done : List Token) (place : Nat) : List Token → List Token
  | [] => done.reverse
  | t :: rest =>
    let start := place + t.gap.text.length
    placeFrom ({ t with place := start } :: done) (start + t.text.length) rest

/-- The tokens of a source text, from the first code on. -/
def lex (choices : List Nat) (source : String) : List Token :=
  let cs := source.toList
  let (front, code) := throughOpenTag [] cs
  placeFrom [] front.length (lexFrom (4 * (cs.length + 2)) (cs.length + 1) choices [] code)

end CodeIndex.Php
