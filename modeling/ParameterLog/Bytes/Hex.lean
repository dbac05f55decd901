/-
Module: ParameterLog.Bytes.Hex
Purpose: identifiers and hashes as hexadecimal text.
Main exports: Bytes.hex, Bytes.ofHex, Bytes.digitByte, HexError, HexError.message
-/
import ParameterLog.Bytes.Basic
import ParameterLog.Text.Quoted

/-!
Identifiers and hashes are shown as lowercase hexadecimal digits, two for a byte. Reading takes both
cases. A text with an odd number of bytes is refused before any digit is looked at; otherwise the
first byte that is no digit is reported with its position, as the character whose code it is.
`ofHex_hex` says that what was shown can be read.
-/

namespace ParameterLog

/-- Why a text is not a hexadecimal byte string. -/
inductive HexError where
  /-- The digits do not pair up. -/
  | oddLength
  /-- The byte at a position is no hexadecimal digit. -/
  | invalidCharacter (byte : UInt8) (position : Nat)
deriving Repr, DecidableEq

/-- The character that a message shows for an offending byte. -/
def HexError.character (byte : UInt8) : Char := Char.ofNat byte.toNat

/-- The wording of a hexadecimal error. -/
def HexError.message : HexError → String
  | .oddLength => "Odd number of digits"
  | .invalidCharacter byte position =>
    s!"Invalid character {Text.quoteChar (character byte)} at position {position}"

namespace Bytes

/-- The lowercase digit of a number below sixteen. -/
def hexDigit (n : Nat) : Char :=
  if n < 10 then Char.ofNat (48 + n) else Char.ofNat (87 + n)

/-- The code of the lowercase digit of a number below sixteen. -/
def digitByte (n : Nat) : UInt8 := UInt8.ofNat (hexDigit n).toNat

/-- The value of a hexadecimal digit, in either case. -/
def hexValue? (byte : UInt8) : Option Nat :=
  let code := byte.toNat
  if 48 ≤ code ∧ code ≤ 57 then some (code - 48)
  else if 65 ≤ code ∧ code ≤ 70 then some (code - 55)
  else if 97 ≤ code ∧ code ≤ 102 then some (code - 87)
  else none

/-- The two digits of a byte. -/
def hexPair (byte : UInt8) : List Char := [hexDigit (byte.toNat / 16), hexDigit (byte.toNat % 16)]

/-- Bytes as lowercase hexadecimal text. -/
def hex (bytes : Bytes) : String := String.ofList (bytes.flatMap hexPair)

/-- Reads pairs of digits, the first of which stands at `position`. -/
def ofHexPairs (position : Nat) : Bytes → Except HexError Bytes
  | [] => .ok []
  | [_] => .error .oddLength
  | high :: low :: rest =>
    match hexValue? high, hexValue? low with
    | none, _ => .error (.invalidCharacter high position)
    | some _, none => .error (.invalidCharacter low (position + 1))
    | some h, some l =>
      match ofHexPairs (position + 2) rest with
      | .ok bytes => .ok (UInt8.ofNat (16 * h + l) :: bytes)
      | .error e => .error e

/-- The bytes that a hexadecimal text names. -/
def ofHex (text : String) : Except HexError Bytes :=
  let digits := ofText text
  if digits.length % 2 = 1 then .error .oddLength else ofHexPairs 0 digits

theorem hexValue?_digitByte {n : Nat} (h : n < 16) : hexValue? (digitByte n) = some n := by
  revert n
  decide

/-- The codes of the digits of bytes. -/
def hexCodes (bytes : Bytes) : Bytes :=
  bytes.flatMap fun b => [digitByte (b.toNat / 16), digitByte (b.toNat % 16)]

theorem ofText_hex (bytes : Bytes) : ofText bytes.hex = hexCodes bytes := by
  have hdigit : ∀ n, n < 16 → String.utf8EncodeChar (hexDigit n) = [digitByte n] := by decide
  have hpair (b : UInt8) : (hexPair b).flatMap String.utf8EncodeChar =
      [digitByte (b.toNat / 16), digitByte (b.toNat % 16)] := by
    have := b.toNat_lt
    simp [hexPair, hdigit (b.toNat / 16) (by omega), hdigit (b.toNat % 16) (by omega)]
  simp [ofText, hex, hexCodes, List.utf8Encode, List.flatMap_assoc, hpair]

theorem ofHexPairs_hex (position : Nat) (bytes : Bytes) :
    ofHexPairs position (hexCodes bytes) = .ok bytes := by
  induction bytes generalizing position with
  | nil => rfl
  | cons b rest ih =>
    have hb := b.toNat_lt
    have joined : UInt8.ofNat (16 * (b.toNat / 16) + b.toNat % 16) = b := by
      rw [Nat.div_add_mod]
      simp
    rw [hexCodes] at ih
    simp [hexCodes, ofHexPairs, hexValue?_digitByte (show b.toNat / 16 < 16 by omega),
      hexValue?_digitByte (show b.toNat % 16 < 16 by omega), ih, joined]

theorem length_hexCodes (bytes : Bytes) : (hexCodes bytes).length = 2 * bytes.length := by
  induction bytes with
  | nil => rfl
  | cons b rest ih =>
    rw [hexCodes] at ih
    simp only [hexCodes, List.flatMap_cons, List.length_append, List.length_cons, List.length_nil,
      ih]
    omega

/-- What was shown can be read. -/
theorem ofHex_hex (bytes : Bytes) : ofHex bytes.hex = .ok bytes := by
  simp only [ofHex, ofText_hex, length_hexCodes, Nat.mul_mod_right, ofHexPairs_hex]
  rfl

end Bytes
end ParameterLog
