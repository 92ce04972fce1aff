/-!
# Double-precision values

A non-negative finite value of double precision is a mantissa below `2 ^ 53` scaled by
a power of two.  Every value here arises by rounding a ratio of natural numbers to the
nearest such value, a half going to the even mantissa, so the arithmetic is exact until
that one step.

* `roundHalf_zero` : nothing rounds to nothing.
-/

namespace CodeIndex.Decimal

/-- A non-negative finite value: `mantissa * 2 ^ exponent`. -/
structure Double where
  mantissa : Nat
  exponent : Int
  deriving DecidableEq, Repr, Inhabited

/-- The least exponent of a double-precision value. -/
def leastExponent : Int := -1074

/-- The greatest exponent of a double-precision value. -/
def greatestExponent : Int := 971

/-- The quotient of natural numbers rounded to nearest, a half to the even neighbour. -/
def roundHalf (num den : Nat) : Nat :=
  let q := num / den
  let r := num % den
  if 2 * r < den then q
  else if den < 2 * r then q + 1
  else q + q % 2

/-- The ratio `num / den` divided by `2 ^ k`, as a ratio. -/
def scaleRatio (num den : Nat) (k : Int) : Nat × Nat :=
  if 0 ≤ k then (num, den * Nat.pow 2 k.toNat) else (num * Nat.pow 2 (-k).toNat, den)

/-- The exponent at which the ratio has a mantissa of 53 bits, or the least one. -/
def exponentOf (num den : Nat) : Int :=
  let guess : Int := (Nat.log2 num : Int) - Nat.log2 den - 52
  let (n, d) := scaleRatio num den guess
  let k := if n / d < Nat.pow 2 52 then guess - 1 else guess
  if k < leastExponent then leastExponent else k

namespace Double

/-- The value zero. -/
def zero : Double := ⟨0, leastExponent⟩

/-- The value nearest to `num / den`; none when that is beyond the greatest one. -/
def ofRatio? (num den : Nat) : Option Double :=
  if num = 0 then some zero
  else
    let k := exponentOf num den
    let (n, d) := scaleRatio num den k
    let m := roundHalf n d
    let rounded : Double := if m = Nat.pow 2 53 then ⟨Nat.pow 2 52, k + 1⟩ else ⟨m, k⟩
    if greatestExponent < rounded.exponent then none else some rounded

/-- The value as a ratio of natural numbers. -/
def toRatio (x : Double) : Nat × Nat :=
  if 0 ≤ x.exponent then (x.mantissa * Nat.pow 2 x.exponent.toNat, 1)
  else (x.mantissa, Nat.pow 2 (-x.exponent).toNat)

/-- The product, rounded. -/
def mul? (x y : Double) : Option Double :=
  ofRatio? (x.toRatio.1 * y.toRatio.1) (x.toRatio.2 * y.toRatio.2)

/-- The quotient, rounded. -/
def div? (x y : Double) : Option Double :=
  ofRatio? (x.toRatio.1 * y.toRatio.2) (x.toRatio.2 * y.toRatio.1)

/-- The value nearest to a natural number. -/
def ofNat? (n : Nat) : Option Double := ofRatio? n 1

end Double

/-- Nothing rounds to nothing. -/
theorem roundHalf_zero (den : Nat) : roundHalf 0 den = 0 := by
  simp [roundHalf]

end CodeIndex.Decimal
