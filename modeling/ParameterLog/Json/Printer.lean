/-
Module: ParameterLog.Json.Printer
Purpose: the text of JSON values, on one line and indented.
Main exports: Value.compact, Value.compactText, Value.pretty
-/
import ParameterLog.Json.Value
import ParameterLog.Json.Decimal
import ParameterLog.Bytes.Hex

/-!
The compact text has no blanks. Inside a text a double quote, a backslash and the controls have
escapes, the short ones where JSON has them and otherwise `\u00` and two lowercase digits; every
other byte of the UTF-8 form stands for itself. The compact text of a map is what gets hashed and
stored. The indented text puts each item and member on a line of its own, two blanks deeper than the
brackets around it, and keeps empty arrays and maps together.
-/

namespace ParameterLog.Json

open Bytes (ofText digitByte)

/-- The letter of a control's short escape. -/
def shortEscape? (byte : UInt8) : Option UInt8 :=
  if byte = 0x08 then some 0x62
  else if byte = 0x09 then some 0x74
  else if byte = 0x0a then some 0x6e
  else if byte = 0x0c then some 0x66
  else if byte = 0x0d then some 0x72
  else none

/-- How a byte of a text is written between the quotes. -/
def escapeByte (byte : UInt8) : Bytes :=
  if byte = 0x22 ∨ byte = 0x5c then [0x5c, byte]
  else if byte < 0x20 then
    match shortEscape? byte with
    | some letter => [0x5c, letter]
    | none => [0x5c, 0x75, 0x30, 0x30, digitByte (byte.toNat / 16), digitByte (byte.toNat % 16)]
  else [byte]

/-- A text as JSON writes it. -/
def quoted (s : String) : Bytes := 0x22 :: (ofText s).flatMap escapeByte ++ [0x22]

/-- A number as JSON writes it. -/
def Number.compact : Number → Bytes
  | .integer n => ofText (toString n)
  | .double d => ofText d.text

namespace Value

mutual

/-- The text of a value without blanks. -/
def compact : Value → Bytes
  | .null => ofText "null"
  | .bool true => ofText "true"
  | .bool false => ofText "false"
  | .number n => n.compact
  | .text s => quoted s
  | .array items => 0x5b :: compactItems items
  | .object members => 0x7b :: compactMembers members

/-- The items of an array with the bracket that closes it. -/
def compactItems : List Value → Bytes
  | [] => [0x5d]
  | [v] => compact v ++ [0x5d]
  | v :: rest => compact v ++ 0x2c :: compactItems rest

/-- The members of a map with the brace that closes it. -/
def compactMembers : List (String × Value) → Bytes
  | [] => [0x7d]
  | [(name, v)] => quoted name ++ 0x3a :: compact v ++ [0x7d]
  | (name, v) :: rest => quoted name ++ 0x3a :: compact v ++ 0x2c :: compactMembers rest

end

/-- The compact text as a string. -/
def compactText (v : Value) : String := (Bytes.toText? v.compact).getD ""

/-- A line break and the indentation of a level. -/
def lineBreak (level : Nat) : Bytes := 0x0a :: List.replicate (2 * level) 0x20

mutual

/-- The indented text of a value inside brackets of a level. -/
def prettyAt (level : Nat) : Value → Bytes
  | .array [] => [0x5b, 0x5d]
  | .array items => 0x5b :: prettyItems (level + 1) items ++ lineBreak level ++ [0x5d]
  | .object [] => [0x7b, 0x7d]
  | .object members => 0x7b :: prettyMembers (level + 1) members ++ lineBreak level ++ [0x7d]
  | .null => ofText "null"
  | .bool true => ofText "true"
  | .bool false => ofText "false"
  | .number n => n.compact
  | .text s => quoted s

/-- The items of an array, each on its line. -/
def prettyItems (level : Nat) : List Value → Bytes
  | [] => []
  | [v] => lineBreak level ++ prettyAt level v
  | v :: rest => lineBreak level ++ prettyAt level v ++ 0x2c :: prettyItems level rest

/-- The members of a map, each on its line. -/
def prettyMembers (level : Nat) : List (String × Value) → Bytes
  | [] => []
  | [(name, v)] => lineBreak level ++ quoted name ++ 0x3a :: 0x20 :: prettyAt level v
  | (name, v) :: rest =>
    lineBreak level ++ quoted name ++ 0x3a :: 0x20 :: prettyAt level v ++
      0x2c :: prettyMembers level rest

end

/-- The indented text of a value. -/
def pretty (v : Value) : String := (Bytes.toText? (prettyAt 0 v)).getD ""

end Value
end ParameterLog.Json
