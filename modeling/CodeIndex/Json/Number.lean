import CodeIndex.Decimal.Shortest
import CodeIndex.Json.Basic

/-!
# Numbers in JSON

Reading keeps as many leading digits as fit an unsigned 64-bit word, and scales by one
power of ten of double precision.  Writing takes the shortest decimal; a real keeps its
point, and turns to scientific form below `10 ^ -5` and from `10 ^ 16` up.
-/

namespace CodeIndex.Json

open Decimal

/-- The first integer that does not fit an unsigned word. -/
def wordLimit : Nat := Nat.pow 2 64

/-- The digits of a text's start, and the rest. -/
def digits (cs : List Char) : List Char × List Char :=
  (cs.takeWhile Char.isDigit, cs.dropWhile Char.isDigit)

/-- The value of a digit. -/
def digitValue (c : Char) : Nat := c.toNat - '0'.toNat

/-- The value of a run of digits. -/
def digitsValue (ds : List Char) : Nat := ds.foldl (fun n d => n * 10 + digitValue d) 0

/-- Append digits to a significand while the result fits a word; the second part is the
number of digits that were left out. -/
def absorb (significand : Nat) : List Char → Nat × Nat
  | [] => (significand, 0)
  | d :: ds =>
    let next := significand * 10 + digitValue d
    if next < wordLimit then absorb next ds else (significand, ds.length + 1)

/-- The greatest exponent of ten that a double-precision value reaches. -/
def greatestPower : Nat := 308

/-- The double-precision value of a power of ten. -/
def power? (n : Nat) : Option Double := Double.ofNat? (Nat.pow 10 n)

/-- Divide by `10 ^ n`, at most `greatestPower` of it in one step. -/
def divPower? (fuel : Nat) (x : Double) (n : Nat) : Option Double :=
  match fuel with
  | 0 => some x
  | fuel + 1 =>
    if n ≤ greatestPower then (power? n).bind x.div?
    else if x.mantissa = 0 then some x
    else do divPower? fuel (← x.div? (← power? greatestPower)) (n - greatestPower)

/-- The value of `significand * 10 ^ exponent`; none when it is beyond all bounds. -/
def scale? (significand : Nat) (exponent : Int) : Option Double := do
  let x ← Double.ofNat? significand
  if 0 ≤ exponent then
    let n := exponent.toNat
    if n ≤ greatestPower then x.mul? (← power? n)
    else if x.mantissa = 0 then some x
    else none
  else divPower? ((-exponent).toNat + 1) x (-exponent).toNat

/-- The exponents that fit a signed 32-bit word are below this one. -/
def exponentLimit : Nat := Nat.pow 2 31

/-- A real number of a significand, an exponent and a written exponent. -/
def realNumber (isNegative : Bool) (significand : Nat) (exponent : Int)
    (written : Option (Bool × Nat)) : Json :=
  let value := match written with
    | none => scale? significand exponent
    | some (false, e) =>
      if e < exponentLimit then scale? significand (exponent + e)
      else if significand = 0 then some Double.zero else none
    | some (true, e) =>
      if e < exponentLimit then scale? significand (exponent - e) else some Double.zero
  match value with
  | some x => .number (.real isNegative x)
  | none => .invalid

/-- An integer without point and exponent.  Zero below zero, and integers that fit no
word, are reals. -/
def integerNumber (isNegative : Bool) (significand dropped : Nat) : Json :=
  if dropped ≠ 0 then realNumber isNegative significand dropped none
  else if !isNegative then .number (.natural significand)
  else if significand = 0 ∨ Nat.pow 2 63 < significand then realNumber true significand 0 none
  else .number (.negative significand)

/-- The digits after a point, when there is a point; it must be followed by a digit. -/
def fraction? : List Char → Option (Option (List Char) × List Char)
  | '.' :: cs =>
    match digits cs with
    | ([], _) => none
    | (ds, rest) => some (some ds, rest)
  | cs => some (none, cs)

/-- The sign of an exponent, true for minus. -/
def exponentSign : List Char → Bool × List Char
  | '-' :: cs => (true, cs)
  | '+' :: cs => (false, cs)
  | cs => (false, cs)

/-- The written exponent, when there is one; its mark must be followed by a digit. -/
def exponent? : List Char → Option (Option (Bool × Nat) × List Char)
  | c :: cs =>
    if c = 'e' ∨ c = 'E' then
      let (isNegative, cs) := exponentSign cs
      match digits cs with
      | ([], _) => none
      | (ds, rest) => some (some (isNegative, digitsValue ds), rest)
    else some (none, c :: cs)
  | [] => some (none, [])

/-- The digits before the point: one zero, or digits that do not start with zero. -/
def wholeDigits? (cs : List Char) : Option (List Char × List Char) :=
  match digits cs with
  | ([], _) => none
  | ('0' :: _ :: _, _) => none
  | (ds, rest) => some (ds, rest)

/-- Read a number without its sign. -/
def readUnsigned (isNegative : Bool) (cs : List Char) : Option (Json × List Char) := do
  let (whole, rest) ← wholeDigits? cs
  let (frac, rest) ← fraction? rest
  let (written, rest) ← exponent? rest
  let (significand, dropped) := absorb 0 whole
  match frac, written with
  | none, none => some (integerNumber isNegative significand dropped, rest)
  | none, some _ => some (realNumber isNegative significand dropped written, rest)
  | some ds, _ =>
    let (significand, left) := absorb significand ds
    let exponent : Int := (dropped : Int) - ((ds.length : Int) - left)
    some (realNumber isNegative significand exponent written, rest)

/-- Read a number. -/
def readNumber : List Char → Option (Json × List Char)
  | '-' :: cs => readUnsigned true cs
  | cs => readUnsigned false cs

/-- The digits of a natural number. -/
def natText (n : Nat) : List Char := Nat.toDigits 10 n

/-- A run of zeros. -/
def zeros (n : Nat) : List Char := List.replicate n '0'

/-- Put a point after the first `n` characters; a whole number keeps the point and a zero. -/
def pointAfter (n : Nat) (ds : List Char) : List Char :=
  let tail := ds.drop n
  ds.take n ++ '.' :: (if tail.isEmpty then ['0'] else tail)

/-- Scientific form: one digit, the others after a point, and the exponent with its sign. -/
def scientific (ds : List Char) (exponent : Int) : List Char :=
  let lead := ds.take 1
  let tail := ds.drop 1
  lead ++ (if tail.isEmpty then [] else '.' :: tail) ++
    'e' :: (if exponent < 0 then '-' else '+') :: natText exponent.natAbs

/-- Write a positive decimal whose digits do not end in zero. -/
def decimalText (d : Decimal.Scaled) : List Char :=
  let ds := natText d.digits
  let exponent : Int := d.exponent + ds.length - 1
  if exponent < -5 ∨ 16 ≤ exponent then scientific ds exponent
  else if exponent < 0 then '0' :: '.' :: (zeros (-exponent - 1).toNat ++ ds)
  else pointAfter (exponent.toNat + 1) (ds ++ zeros (exponent.toNat + 1 - ds.length))

/-- Write a non-negative value of double precision. -/
def doubleText (x : Double) : List Char :=
  if x.mantissa = 0 then ['0', '.', '0']
  else decimalText (x.shortest.reduce 400)

/-- Write a number. -/
def Number.text : Number → List Char
  | .natural n => natText n
  | .negative n => '-' :: natText n
  | .real isNegative x => (if isNegative then ['-'] else []) ++ doubleText x

end CodeIndex.Json
