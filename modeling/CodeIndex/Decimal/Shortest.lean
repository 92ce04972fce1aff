import CodeIndex.Decimal.Double

/-!
# The fewest digits that read back

A positive double-precision value stands for every real that rounds to it.  Its shortest
decimal is the one with the fewest digits in that interval, and among those the nearest
to the value.
-/

namespace CodeIndex.Decimal

/-- A positive decimal `digits * 10 ^ exponent`. -/
structure Scaled where
  digits : Nat
  exponent : Int
  deriving DecidableEq, Repr, Inhabited

/-- The number of decimal digits of a natural number. -/
def digitCount (n : Nat) : Nat := (Nat.toDigits 10 n).length

/-- A decimal as a ratio of natural numbers. -/
def Scaled.toRatio (d : Scaled) : Nat × Nat :=
  if 0 ≤ d.exponent then (d.digits * Nat.pow 10 d.exponent.toNat, 1)
  else (d.digits, Nat.pow 10 (-d.exponent).toNat)

/-- Is the first ratio below the second? -/
def ratioLt (a b : Nat × Nat) : Bool := a.1 * b.2 < b.1 * a.2

/-- The distance of two ratios. -/
def ratioGap (a b : Nat × Nat) : Nat × Nat :=
  let x := a.1 * b.2
  let y := b.1 * a.2
  (if x < y then y - x else x - y, a.2 * b.2)

namespace Double

/-- The lower end of the interval of reals that round to the value.  Below a power of two
the neighbour is half as far. -/
def lowerEnd (x : Double) : Nat × Nat :=
  if x.mantissa = Nat.pow 2 52 ∧ leastExponent < x.exponent then
    toRatio ⟨4 * x.mantissa - 1, x.exponent - 2⟩
  else toRatio ⟨2 * x.mantissa - 1, x.exponent - 1⟩

/-- The upper end of the interval of reals that round to the value. -/
def upperEnd (x : Double) : Nat × Nat := toRatio ⟨2 * x.mantissa + 1, x.exponent - 1⟩

/-- Does the decimal read back as the value?  The ends of the interval belong to it when
the mantissa is even. -/
def readsBack (x : Double) (d : Scaled) : Bool :=
  if x.mantissa % 2 = 0 then
    !ratioLt d.toRatio x.lowerEnd && !ratioLt x.upperEnd d.toRatio
  else ratioLt x.lowerEnd d.toRatio && ratioLt d.toRatio x.upperEnd

/-- The exponent of the leading decimal digit, found from the first guess upwards. -/
def leadingExponent (x : Double) : Int :=
  let (num, den) := x.toRatio
  if den ≤ num then (digitCount (num / den) : Int) - 1
  else -(digitCount ((den - 1) / num) : Int)

/-- The value's neighbours among decimals with the given last exponent, those that read
back, the nearer one. -/
def onGrid (x : Double) (k : Int) : Option Scaled :=
  let (num, den) := x.toRatio
  let floor :=
    if 0 ≤ k then num / (den * Nat.pow 10 k.toNat) else num * Nat.pow 10 (-k).toNat / den
  let below : Scaled := ⟨floor, k⟩
  let above : Scaled := ⟨floor + 1, k⟩
  match x.readsBack below, x.readsBack above with
  | true, true =>
    let gapBelow := ratioGap x.toRatio below.toRatio
    let gapAbove := ratioGap x.toRatio above.toRatio
    if ratioLt gapBelow gapAbove then some below
    else if ratioLt gapAbove gapBelow then some above
    else if floor % 2 = 0 then some below else some above
  | true, false => some below
  | false, true => some above
  | false, false => none

/-- Try grids of one digit more each time. -/
def searchGrids (x : Double) (leading : Int) : Nat → Nat → Scaled
  | 0, _ => ⟨0, 0⟩
  | tries + 1, count =>
    match onGrid x (leading + 1 - count) with
    | some d => d
    | none => searchGrids x leading tries (count + 1)

/-- The shortest decimal of a positive value; seventeen digits always suffice. -/
def shortest (x : Double) : Scaled := searchGrids x x.leadingExponent 18 1

end Double

/-- Drop the trailing zeros of the digits, at most `fuel` of them. -/
def Scaled.reduce (fuel : Nat) (d : Scaled) : Scaled :=
  match fuel with
  | 0 => d
  | fuel + 1 =>
    if d.digits % 10 = 0 && d.digits != 0 then
      Scaled.reduce fuel ⟨d.digits / 10, d.exponent + 1⟩
    else d

end CodeIndex.Decimal
