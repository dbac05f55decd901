/-
Module: ParameterLog.Json.Numeral
Purpose: reading the numbers of a JSON text.
Main exports: Json.readNumber
-/
import ParameterLog.Bytes.Basic
import ParameterLog.Json.ReadError

/-!
A number without fraction and exponent that fits 64 bits is an integer, signed or not; `-0` is a
double. All other numbers are doubles, found as follows. Digits are collected into a significand as
long as it stays below `2 ^ 64`. Once an integer digit does not fit, that digit and the integer
digits after it only raise the exponent of ten; once a fraction digit does not fit, the fraction
digits from it on are passed over. The significand is rounded to a double and then multiplied or
divided by the double nearest to the power of ten, with one more rounding. Exponents below -308 are
divided off in steps of 308. A number too large for a double is refused.
-/

namespace ParameterLog.Json

/-- The value of a decimal digit. -/
def digit? (byte : UInt8) : Option Nat :=
  if 0x30 ≤ byte ∧ byte ≤ 0x39 then some (byte.toNat - 0x30) else none

/-- A significand stays below this bound, `2 ^ 64`. -/
def significandBound : Nat := 18446744073709551616

/-- Digits collected from the front of a text. -/
structure Digits where
  significand : Nat
  /-- How many digits went into the significand. -/
  count : Nat
  /-- Whether the text goes on with a digit that does not fit. -/
  overflow : Bool
  rest : Bytes

/-- Adds digits to a significand until one does not fit or the digits end. -/
def collectDigits (significand count : Nat) : Bytes → Digits
  | [] => ⟨significand, count, false, []⟩
  | byte :: rest =>
    match digit? byte with
    | none => ⟨significand, count, false, byte :: rest⟩
    | some d =>
      if significand * 10 + d < significandBound then
        collectDigits (significand * 10 + d) (count + 1) rest
      else ⟨significand, count, true, byte :: rest⟩

/-- Passes over digits and counts them. -/
def passDigits (count : Nat) : Bytes → Nat × Bytes
  | [] => (count, [])
  | byte :: rest =>
    match digit? byte with
    | none => (count, byte :: rest)
    | some _ => passDigits (count + 1) rest

/-- The value of a run of digits and what follows it. -/
def digitsValue (value : Nat) : Bytes → Nat × Bytes
  | [] => (value, [])
  | byte :: rest =>
    match digit? byte with
    | none => (value, byte :: rest)
    | some d => digitsValue (value * 10 + d) rest

/-- The largest power of ten that a significand is scaled by at once. -/
def greatestPower : Nat := 308

/-- The double nearest to a power of ten. -/
def powerOfTen (k : Nat) : Double := (Double.ofRatio false (Nat.pow 10 k) 1).getD (.zero false)

/-- Divides by a power of ten, in steps. -/
def divideByPower (d : Double) (k : Nat) : Double :=
  if k ≤ greatestPower then (d.dividedBy (powerOfTen k)).getD (.zero false)
  else if d.isZero then d
  else
    divideByPower ((d.dividedBy (powerOfTen greatestPower)).getD (.zero false)) (k - greatestPower)
termination_by k
decreasing_by simp only [greatestPower]; omega

/-- The double of a significand and an exponent of ten. -/
def scaleByPower (negative : Bool) (significand : Nat) (exponent : Int) : Except ReadError Double :=
  let unscaled := (Double.ofRatio false significand 1).getD (.zero false)
  let magnitude : Option Double :=
    if exponent < 0 then some (divideByPower unscaled exponent.natAbs)
    else if exponent.natAbs ≤ greatestPower then unscaled.times (powerOfTen exponent.natAbs)
    else if unscaled.isZero then some unscaled
    else none
  match magnitude with
  | some d => .ok { d with negative := negative }
  | none => .error .malformed

/-- Reads an exponent after its letter and gives the double. -/
def readExponent (negative : Bool) (significand : Nat) (start : Int) (input : Bytes) :
    Except ReadError (Double × Bytes) :=
  let (raises, digits) :=
    match input with
    | 0x2b :: rest => (true, rest)
    | 0x2d :: rest => (false, rest)
    | other => (true, other)
  match digits with
  | [] => .error .unfinished
  | byte :: _ =>
    match digit? byte with
    | none => .error .malformed
    | some _ =>
      let (value, rest) := digitsValue 0 digits
      match scaleByPower negative significand (if raises then start + value else start - value) with
      | .ok d => .ok (d, rest)
      | .error e => .error e

/-- Reads an exponent if there is one and gives the double. -/
def readScale (negative : Bool) (significand : Nat) (exponent : Int) (input : Bytes) :
    Except ReadError (Double × Bytes) :=
  match input with
  | byte :: rest =>
    if byte = 0x65 ∨ byte = 0x45 then readExponent negative significand exponent rest
    else (scaleByPower negative significand exponent).map (·, input)
  | [] => (scaleByPower negative significand exponent).map (·, [])

/-- Reads a fraction after its point and gives the double. -/
def readFraction (negative : Bool) (significand : Nat) (exponent : Int) (input : Bytes) :
    Except ReadError (Double × Bytes) :=
  let digits := collectDigits significand 0 input
  if digits.overflow then
    readScale negative digits.significand (exponent - digits.count) (passDigits 0 digits.rest).2
  else if digits.count = 0 then
    match input with
    | [] => .error .unfinished
    | _ => .error .malformed
  else readScale negative digits.significand (exponent - digits.count) digits.rest

/-- An integer of 64 bits, or the double that stands for it. -/
def wholeNumber (negative : Bool) (significand : Nat) : Except ReadError Number :=
  if !negative then .ok (.integer significand)
  else if 0 < significand ∧ 2 * significand ≤ significandBound then .ok (.integer (-significand))
  else (scaleByPower true significand 0).map .double

/-- Reads what follows the integer digits. -/
def readTail (negative : Bool) (significand : Nat) (exponent : Int) (whole : Bool) (input : Bytes) :
    Except ReadError (Number × Bytes) :=
  let double := (Except.map fun (d, rest) => (Number.double d, rest) :
    Except ReadError (Double × Bytes) → _)
  match input with
  | 0x2e :: rest => double (readFraction negative significand exponent rest)
  | byte :: _ =>
    if byte = 0x65 ∨ byte = 0x45 ∨ !whole then
      double (readScale negative significand exponent input)
    else (wholeNumber negative significand).map (·, input)
  | [] =>
    if whole then (wholeNumber negative significand).map (·, [])
    else double (readScale negative significand exponent [])

/-- Reads a number after its sign. -/
def readNumber (negative : Bool) (input : Bytes) : Except ReadError (Number × Bytes) :=
  match input with
  | [] => .error .unfinished
  | first :: rest =>
    match digit? first with
    | none => .error .malformed
    | some 0 =>
      match rest with
      | second :: _ =>
        if (digit? second).isSome then .error .malformed else readTail negative 0 0 true rest
      | [] => readTail negative 0 0 true []
    | some _ =>
      let digits := collectDigits 0 0 input
      if digits.overflow then
        let (passed, rest) := passDigits 0 digits.rest
        readTail negative digits.significand passed false rest
      else readTail negative digits.significand 0 true digits.rest

end ParameterLog.Json
