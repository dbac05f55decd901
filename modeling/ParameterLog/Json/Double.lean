/-
Module: ParameterLog.Json.Double
Purpose: binary64 numbers as sign, mantissa and exponent, with rounding in exact arithmetic.
Main exports: Double, Double.ofRatio, Double.times, Double.dividedBy
-/

/-!
A double stands for `± mantissa · 2 ^ exponent`. The mantissa has at most 53 bits and the exponent
is at least -1074; the mantissa is below `2 ^ 52` only at the least exponent, so that each value
other than zero has one representation. Arithmetic is done on ratios of naturals and rounded once,
to the nearest double and to the even mantissa of two that are equally near. A ratio too large for
any double gives nothing.
-/

namespace ParameterLog.Json

/-- A finite binary64 number. -/
structure Double where
  negative : Bool
  mantissa : Nat
  exponent : Int
deriving Repr, DecidableEq, Inhabited

/-- The quotient rounded to the nearest natural, a half to the even neighbour. -/
def roundHalfEven (num den : Nat) : Nat :=
  let quotient := num / den
  let remainder := num % den
  if 2 * remainder < den then quotient
  else if den < 2 * remainder then quotient + 1
  else quotient + quotient % 2

namespace Double

/-- The least exponent of a double. -/
def leastExponent : Int := -1074

/-- The greatest exponent of a double. -/
def greatestExponent : Int := 971

/-- The least mantissa of 53 bits, `2 ^ 52`. -/
def leastFull : Nat := 4503599627370496

/-- Zero with a sign. -/
def zero (negative : Bool) : Double := ⟨negative, 0, leastExponent⟩

/-- Whether the number is zero, of either sign. -/
def isZero (d : Double) : Bool := d.mantissa == 0

/-- The number with the other sign. -/
def negate (d : Double) : Double := { d with negative := !d.negative }

/-- The ratio `num / den` divided by `2 ^ exponent`, as a ratio. -/
def scaleDown (num den : Nat) : Int → Nat × Nat
  | .ofNat e => (num, den * Nat.pow 2 e)
  | .negSucc e => (num * Nat.pow 2 (e + 1), den)

/-- The exponent that a positive ratio has as a double: the one that leaves 53 bits before the
point, but never below the least exponent. -/
def exponentOf (num den : Nat) : Int :=
  let guess : Int := (Nat.log2 num : Int) - Nat.log2 den - 53
  let scaled := scaleDown num den guess
  let exact := if 2 * leastFull ≤ scaled.1 / scaled.2 then guess + 1 else guess
  max exact leastExponent

/-- The double nearest to a ratio, if the ratio is not too large. -/
def ofRatio (negative : Bool) (num den : Nat) : Option Double :=
  if num = 0 then some (zero negative)
  else
    let exponent := exponentOf num den
    let scaled := scaleDown num den exponent
    let mantissa := roundHalfEven scaled.1 scaled.2
    let rounded : Double :=
      if mantissa = 2 * leastFull then ⟨negative, leastFull, exponent + 1⟩
      else ⟨negative, mantissa, exponent⟩
    if greatestExponent < rounded.exponent then none else some rounded

/-- The magnitude of a double as a ratio. -/
def ratio (d : Double) : Nat × Nat := scaleDown d.mantissa 1 (-d.exponent)

/-- The product of two doubles, rounded. -/
def times (a b : Double) : Option Double :=
  let (aNum, aDen) := a.ratio
  let (bNum, bDen) := b.ratio
  ofRatio (a.negative != b.negative) (aNum * bNum) (aDen * bDen)

/-- The quotient of two doubles, rounded; the divisor is not zero. -/
def dividedBy (a b : Double) : Option Double :=
  let (aNum, aDen) := a.ratio
  let (bNum, bDen) := b.ratio
  ofRatio (a.negative != b.negative) (aNum * bDen) (aDen * bNum)

/-- Two doubles are the same number: zeros of either sign are. -/
def sameNumber (a b : Double) : Bool := (a.isZero && b.isZero) || a == b

end Double
end ParameterLog.Json
