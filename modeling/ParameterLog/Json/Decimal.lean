/-
Module: ParameterLog.Json.Decimal
Purpose: the decimal text of a double.
Main exports: Double.shortest, Double.text
-/
import ParameterLog.Json.Double

/-!
A double is written with the fewest digits that read back as the same double, and of the decimals
with that many digits with the nearest. For one digit, two digits and so on, the two neighbours of
the value on the decimal grid of that width are tested against the interval of numbers that round to
the double; its ends belong to it when the mantissa is even.
-/

namespace ParameterLog.Json

/-- A positive decimal `digits · 10 ^ exponent`. -/
structure Decimal where
  digits : Nat
  exponent : Int
deriving Repr, DecidableEq, Inhabited

namespace Decimal

/-- The number of decimal digits of a natural. -/
def width (n : Nat) : Nat := (Nat.toDigits 10 n).length

/-- The exponent of the power of ten at or below a positive ratio. -/
def magnitude (num den : Nat) : Int :=
  if den ≤ num then (width (num / den) : Int) - 1
  else
    let inverse := width (den / num)
    if num * Nat.pow 10 (inverse - 1) = den then 1 - (inverse : Int) else -(inverse : Int)

/-- The ratio divided by a power of ten, as a ratio. -/
def scaleDown (num den : Nat) : Int → Nat × Nat
  | .ofNat e => (num, den * Nat.pow 10 e)
  | .negSucc e => (num * Nat.pow 10 (e + 1), den)

/-- The decimal without zeros at the end of its digits, of which it has at most `count`. -/
def trim (d : Decimal) : Nat → Decimal
  | 0 => d
  | count + 1 =>
    if d.digits % 10 = 0 then trim ⟨d.digits / 10, d.exponent + 1⟩ count else d

end Decimal

namespace Double

/-- The interval of ratios that round to a positive double, over the denominator of its quarter
units: lower end, value, upper end and denominator. -/
def interval (d : Double) : Nat × Nat × Nat × Nat :=
  let unit := Double.scaleDown 1 1 (2 - d.exponent)
  let below := if d.mantissa = leastFull ∧ leastExponent < d.exponent then 1 else 2
  ((4 * d.mantissa - below) * unit.1, 4 * d.mantissa * unit.1, (4 * d.mantissa + 2) * unit.1,
    unit.2)

/-- The nearest decimal on the grid `10 ^ exponent` that rounds to the double, if there is one. -/
def onGrid (d : Double) (exponent : Int) : Option Decimal :=
  let (low, value, high, den) := d.interval
  let closed := d.mantissa % 2 = 0
  let scaled := Decimal.scaleDown value den exponent
  let lowScaled := Decimal.scaleDown low den exponent
  let highScaled := Decimal.scaleDown high den exponent
  let down := scaled.1 / scaled.2
  let up := down + 1
  let downFits := lowScaled.1 < down * lowScaled.2 ∨ (closed ∧ lowScaled.1 = down * lowScaled.2)
  let upFits := up * highScaled.2 < highScaled.1 ∨ (closed ∧ up * highScaled.2 = highScaled.1)
  let fromDown := scaled.1 - down * scaled.2
  let fromUp := up * scaled.2 - scaled.1
  if downFits ∧ upFits then
    some ⟨if fromDown < fromUp ∨ (fromDown = fromUp ∧ down % 2 = 0) then down else up, exponent⟩
  else if downFits then some ⟨down, exponent⟩
  else if upFits then some ⟨up, exponent⟩
  else none

/-- Tries the grids from coarse to fine, `count` of them. -/
def firstOnGrid (d : Double) : Nat → Int → Decimal
  | 0, _ => ⟨0, 0⟩
  | count + 1, exponent =>
    match d.onGrid exponent with
    | some decimal => decimal.trim 17
    | none => d.firstOnGrid count (exponent - 1)

/-- The shortest decimal that reads back as a double other than zero, without its sign. -/
def shortest (d : Double) : Decimal :=
  let (num, den) := d.ratio
  d.firstOnGrid 17 (Decimal.magnitude num den)

/-- The exponents of ten that are written out in positional notation. -/
def positional (exponent : Int) : Bool := -5 ≤ exponent && exponent ≤ 15

/-- The text of a decimal: positional notation with at least one digit after the point, or
scientific notation with the sign of the exponent. -/
def decimalText (decimal : Decimal) : String :=
  let digits := Nat.toDigits 10 decimal.digits
  let exponent : Int := decimal.exponent + digits.length - 1
  String.ofList <|
    if positional exponent then
      if exponent < 0 then
        ['0', '.'] ++ List.replicate (-exponent - 1).toNat '0' ++ digits
      else if digits.length ≤ exponent.toNat + 1 then
        digits ++ List.replicate (exponent.toNat + 1 - digits.length) '0' ++ ['.', '0']
      else digits.take (exponent.toNat + 1) ++ ['.'] ++ digits.drop (exponent.toNat + 1)
    else
      let fraction := if digits.length = 1 then [] else '.' :: digits.drop 1
      let sign := if exponent < 0 then '-' else '+'
      digits.take 1 ++ fraction ++ ['e', sign] ++ Nat.toDigits 10 exponent.natAbs

/-- The text of a double. -/
def text (d : Double) : String :=
  let sign := if d.negative then "-" else ""
  if d.isZero then sign ++ "0.0" else sign ++ decimalText d.shortest

end Double
end ParameterLog.Json
