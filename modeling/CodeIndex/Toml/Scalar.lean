import CodeIndex.Decimal.Double
import CodeIndex.Json.Reader
import CodeIndex.Text.Slice
import CodeIndex.Timestamp
import CodeIndex.Toml.Value

/-!
# Scalars of a settings text

Strings of four kinds, integers in four bases, fractions, truth values and points in
time.  Each reader takes the text from where it stands and gives back the rest.
-/

namespace CodeIndex.Toml

open Text

/-- A blank inside a line. -/
def isInlineBlank (c : Char) : Bool := c == ' ' || c == '\t'

/-- Skip blanks inside a line. -/
def skipInline (cs : List Char) : List Char := cs.dropWhile isInlineBlank

/-- The rest after a line end. -/
def lineEnd? : List Char → Option (List Char)
  | '\n' :: rest => some rest
  | '\r' :: '\n' :: rest => some rest
  | _ => none

/-- A character that may stand in a comment and, quotes and backslashes apart, in a string. -/
def isPlain (c : Char) : Bool := c == '\t' || (0x20 ≤ c.toNat && c.toNat != 0x7f)

/-- The character with the given number, when there is one. -/
def scalarChar? (n : Nat) : Option Char :=
  if h : n.isValidChar then some (Char.ofNatAux n h) else none

/-- The value of hexadecimal digits. -/
def hexNumber? (ds : List Char) : Option Nat :=
  ds.foldlM (fun n d => (Json.hexValue? d).map (n * 16 + ·)) 0

/-- The character of an escape after its backslash, and the rest. -/
def escape? : List Char → Option (Char × List Char)
  | 'b' :: rest => some ('\x08', rest)
  | 'f' :: rest => some ('\x0c', rest)
  | 'n' :: rest => some ('\n', rest)
  | 'r' :: rest => some ('\r', rest)
  | 't' :: rest => some ('\t', rest)
  | '"' :: rest => some ('"', rest)
  | '\\' :: rest => some ('\\', rest)
  | 'u' :: rest =>
    if rest.length < 4 then none
    else ((hexNumber? (rest.take 4)).bind scalarChar?).map (·, rest.drop 4)
  | 'U' :: rest =>
    if rest.length < 8 then none
    else ((hexNumber? (rest.take 8)).bind scalarChar?).map (·, rest.drop 8)
  | _ => none

/-- The text of a basic string up to its closing quote. -/
def basicBody : Nat → List Char → Option (List Char × List Char)
  | 0, _ => none
  | _ + 1, [] => none
  | _ + 1, '"' :: rest => some ([], rest)
  | fuel + 1, '\\' :: rest => do
    let (c, rest) ← escape? rest
    let (body, rest) ← basicBody fuel rest
    some (c :: body, rest)
  | fuel + 1, c :: rest =>
    if isPlain c then (basicBody fuel rest).map fun (body, rest) => (c :: body, rest) else none

/-- The text of a literal string up to its closing quote. -/
def literalBody : List Char → Option (List Char × List Char)
  | [] => none
  | '\'' :: rest => some ([], rest)
  | c :: rest =>
    if isPlain c then (literalBody rest).map fun (body, rest) => (c :: body, rest) else none

/-- Skip blanks and line ends. -/
def skipLines : List Char → List Char
  | ' ' :: rest => skipLines rest
  | '\t' :: rest => skipLines rest
  | '\n' :: rest => skipLines rest
  | '\r' :: '\n' :: rest => skipLines rest
  | cs => cs

/-- The rest after a backslash that ends a line, with the blanks and line ends after it. -/
def foldedLine? (cs : List Char) : Option (List Char) := (lineEnd? (skipInline cs)).map skipLines

/-- The quotes at the end of a string over lines: the last three close it, up to two before
them belong to it. -/
def closingQuotes? (quote : Char) (cs : List Char) : Option (List Char × List Char) :=
  let run := (cs.takeWhile (· == quote)).length
  if run < 3 then none
  else
    let own := min (run - 3) 2
    some (List.replicate own quote, cs.drop (own + 3))

/-- The text of a basic string over lines, up to its closing quotes. -/
def basicLines : Nat → List Char → Option (List Char × List Char)
  | 0, _ => none
  | fuel + 1, cs =>
    match closingQuotes? '"' cs with
    | some closed => some closed
    | none =>
      match cs with
      | [] => none
      | '\\' :: rest =>
        match foldedLine? rest with
        | some rest => basicLines fuel rest
        | none => do
          let (c, rest) ← escape? rest
          let (body, rest) ← basicLines fuel rest
          some (c :: body, rest)
      | c :: rest =>
        match lineEnd? (c :: rest) with
        | some rest => (basicLines fuel rest).map fun (body, rest) => ('\n' :: body, rest)
        | none =>
          if isPlain c then
            (basicLines fuel rest).map fun (body, rest) => (c :: body, rest)
          else none

/-- The text of a literal string over lines, up to its closing quotes. -/
def literalLines : Nat → List Char → Option (List Char × List Char)
  | 0, _ => none
  | fuel + 1, cs =>
    match closingQuotes? '\'' cs with
    | some closed => some closed
    | none =>
      match cs with
      | [] => none
      | c :: rest =>
        match lineEnd? (c :: rest) with
        | some rest => (literalLines fuel rest).map fun (body, rest) => ('\n' :: body, rest)
        | none =>
          if isPlain c then
            (literalLines fuel rest).map fun (body, rest) => (c :: body, rest)
          else none

/-- The rest without a line end right at its start. -/
def dropLineEnd (cs : List Char) : List Char := (lineEnd? cs).getD cs

/-- A string on one line, of either kind. -/
def lineString? : List Char → Option (List Char × List Char)
  | '"' :: rest => basicBody (rest.length + 1) rest
  | '\'' :: rest => literalBody rest
  | _ => none

/-- A string of any kind. -/
def string? : List Char → Option (List Char × List Char)
  | '"' :: '"' :: '"' :: rest => basicLines (rest.length + 1) (dropLineEnd rest)
  | '\'' :: '\'' :: '\'' :: rest => literalLines (rest.length + 1) (dropLineEnd rest)
  | cs => lineString? cs

/-- Digits of a class with single underscores between them; the underscores are dropped. -/
def groupedDigits (isDigit : Char → Bool) : List Char → List Char × List Char
  | '_' :: d :: rest =>
    if isDigit d then
      let (ds, rest) := groupedDigits isDigit rest
      (d :: ds, rest)
    else ([], '_' :: d :: rest)
  | d :: rest =>
    if isDigit d then
      let (ds, rest) := groupedDigits isDigit rest
      (d :: ds, rest)
    else ([], d :: rest)
  | [] => ([], [])

/-- At least one digit of a class. -/
def digits? (isDigit : Char → Bool) : List Char → Option (List Char × List Char)
  | d :: rest =>
    if isDigit d then
      let (ds, rest) := groupedDigits isDigit rest
      some (d :: ds, rest)
    else none
  | [] => none

/-- A sign, true for minus. -/
def sign : List Char → Bool × List Char
  | '-' :: rest => (true, rest)
  | '+' :: rest => (false, rest)
  | cs => (false, cs)

/-- The digits of a decimal integer: a zero alone, or digits that do not start with zero. -/
def decimalDigits? : List Char → Option (List Char × List Char)
  | '0' :: rest => some (['0'], rest)
  | cs => digits? Char.isDigit cs

/-- The value of digits in a base. -/
def digitsValue (base : Nat) (ds : List Char) : Nat :=
  ds.foldl (fun n d => n * base + (Json.hexValue? d).getD 0) 0

/-- An integer that fits a signed 64-bit word. -/
def wordInt? (isNegative : Bool) (n : Nat) : Option Toml :=
  if isNegative then if n ≤ Nat.pow 2 63 then some (.int (-(n : Int))) else none
  else if n < Nat.pow 2 63 then some (.int n) else none

/-- An integer in a base after its mark. -/
def based? (base : Nat) (cs : List Char) : Option (Toml × List Char) := do
  let isDigit (c : Char) : Bool := (Json.hexValue? c).any (· < base)
  let (ds, rest) ← digits? isDigit cs
  some (← wordInt? false (digitsValue base ds), rest)

/-- An integer. -/
def integer? : List Char → Option (Toml × List Char)
  | '0' :: 'x' :: rest => based? 16 rest
  | '0' :: 'o' :: rest => based? 8 rest
  | '0' :: 'b' :: rest => based? 2 rest
  | cs => do
    let (isNegative, cs) := sign cs
    let (ds, rest) ← decimalDigits? cs
    some (← wordInt? isNegative (digitsValue 10 ds), rest)

/-- The fraction of a number; its point must be followed by a digit. -/
def fractionPart : List Char → Option (Option (List Char) × List Char)
  | '.' :: cs => (digits? Char.isDigit cs).map fun (ds, rest) => (some ds, rest)
  | cs => some (none, cs)

/-- The exponent of a number; its mark must be followed by a digit after an optional sign. -/
def exponentPart : List Char → Option (Option Int × List Char)
  | c :: cs =>
    if c == 'e' || c == 'E' then do
      let (isNegative, cs) := sign cs
      let (ds, rest) ← digits? Char.isDigit cs
      let n : Int := digitsValue 10 ds
      some (some (if isNegative then -n else n), rest)
    else some (none, c :: cs)
  | [] => some (none, [])

/-- Is `significand * 10 ^ exponent` beyond the greatest double-precision value?  With more
than 400 digits it is, and below one it is not. -/
def isBeyond (significand : Nat) (exponent : Int) : Bool :=
  if significand = 0 then false
  else
    let size : Int := (Nat.toDigits 10 significand).length + exponent
    if 400 < size then true
    else if size < 0 then false
    else
      let ratio := if 0 ≤ exponent then (significand * Nat.pow 10 exponent.toNat, 1)
        else (significand, Nat.pow 10 (-exponent).toNat)
      (Decimal.Double.ofRatio? ratio.1 ratio.2).isNone

/-- A number with a fraction or an exponent.  One above all bounds is refused. -/
def decimal? (cs : List Char) : Option (Toml × List Char) := do
  let (isNegative, cs) := sign cs
  let (whole, rest) ← decimalDigits? cs
  let (frac, rest) ← fractionPart rest
  let (written, rest) ← exponentPart rest
  if frac.isNone && written.isNone then none
  let ds := frac.getD []
  let significand := digitsValue 10 (whole ++ ds)
  if !isNegative && isBeyond significand (written.getD 0 - ds.length) then none
  some (.real, rest)

/-- Infinity or no number, with an optional sign. -/
def specialReal? (cs : List Char) : Option (Toml × List Char) :=
  let (_, cs) := sign cs
  ((stripStart? ['i', 'n', 'f'] cs).or (stripStart? ['n', 'a', 'n'] cs)).map (.real, ·)

/-- Exactly so many digits, as a number. -/
def exactly? (count : Nat) (cs : List Char) : Option (Nat × List Char) :=
  let ds := cs.take count
  if ds.length = count && ds.all Char.isDigit then some (digitsValue 10 ds, cs.drop count)
  else none

/-- The rest after a character. -/
def mark? (c : Char) : List Char → Option (List Char)
  | d :: rest => if d = c then some rest else none
  | [] => none

/-- A calendar day. -/
def date? (cs : List Char) : Option (List Char) := do
  let (year, cs) ← exactly? 4 cs
  let (month, cs) ← exactly? 2 (← mark? '-' cs)
  let (day, cs) ← exactly? 2 (← mark? '-' cs)
  if (⟨year, month, day⟩ : Day).isValid then some cs else none

/-- The fraction of a second. -/
def secondFraction (cs : List Char) : Option (List Char) :=
  match cs with
  | '.' :: rest =>
    match rest.takeWhile Char.isDigit with
    | [] => some cs
    | _ => some (rest.dropWhile Char.isDigit)
  | _ => some cs

/-- A clock time. -/
def clock? (cs : List Char) : Option (List Char) := do
  let (hour, cs) ← exactly? 2 cs
  let (minute, cs) ← exactly? 2 (← mark? ':' cs)
  let (second, cs) ← exactly? 2 (← mark? ':' cs)
  if hour < 24 && minute < 60 && second ≤ 60 then secondFraction cs else none

/-- The offset of a clock time from universal time. -/
def offset? : List Char → Option (List Char)
  | 'Z' :: rest => some rest
  | 'z' :: rest => some rest
  | c :: rest =>
    if c == '+' || c == '-' then do
      let (hour, rest) ← exactly? 2 rest
      let (minute, rest) ← exactly? 2 (← mark? ':' rest)
      if hour < 24 && minute < 60 then some rest else none
    else none
  | [] => none

/-- The clock time after a date and its separator. -/
def clockAfterDate? : List Char → Option (List Char)
  | c :: rest =>
    if c == 'T' || c == 't' || c == ' ' then do
      let rest ← clock? rest
      some ((offset? rest).getD rest)
    else none
  | [] => none

/-- A point in time: a date, a clock time, or both. -/
def time? (cs : List Char) : Option (Toml × List Char) :=
  match date? cs with
  | some rest => some (.time, (clockAfterDate? rest).getD rest)
  | none => (clock? cs).map (.time, ·)

/-- A value that starts like a number. -/
def numeric? (cs : List Char) : Option (Toml × List Char) :=
  (((time? cs).or (decimal? cs)).or (specialReal? cs)).or (integer? cs)

/-- A value without parts. -/
def scalar? (cs : List Char) : Option (Toml × List Char) :=
  match cs with
  | [] => none
  | c :: _ =>
    if c == '"' || c == '\'' then
      (string? cs).map fun (text, rest) => (.str (String.ofList text), rest)
    else if c == 't' then (stripStart? "true".toList cs).map (.bool true, ·)
    else if c == 'f' then (stripStart? "false".toList cs).map (.bool false, ·)
    else if c == 'i' || c == 'n' then specialReal? cs
    else if c == '+' || c == '-' || c.isDigit then numeric? cs
    else none

end CodeIndex.Toml
