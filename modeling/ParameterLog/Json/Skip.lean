/-
Module: ParameterLog.Json.Skip
Purpose: passing over a JSON value that nobody asked for.
Main exports: Json.skipValue
-/
import ParameterLog.Json.Reader

/-!
The value of an unknown member is passed over without being built. Only its outer form is looked at:
it may nest to any depth, a text may hold single surrogates and bytes that are no UTF-8, and a
number may be too large for a double. A number that breaks off is malformed here even at the end of
the text.
-/

namespace ParameterLog.Json

/-- Passes over a text after the quote that opens it. -/
def skipText : Bytes → Except ReadError Bytes
  | [] => .error .unfinished
  | byte :: rest =>
    if byte = 0x22 then .ok rest
    else if byte = 0x5c then
      match rest with
      | [] => .error .unfinished
      | letter :: rest =>
        if (escaped? letter).isSome then skipText rest
        else if letter ≠ 0x75 then .error .malformed
        else
          match rest with
          | a :: b :: c :: d :: rest =>
            if (codeUnit? a b c d).isSome then skipText rest else .error .malformed
          | _ => .error .unfinished
    else if byte < 0x20 then .error .malformed
    else skipText rest

/-- Passes over an exponent after its letter. -/
def skipExponent (input : Bytes) : Except ReadError Bytes :=
  let digits :=
    match input with
    | 0x2b :: rest => rest
    | 0x2d :: rest => rest
    | other => other
  match passDigits 0 digits with
  | (0, _) => .error .malformed
  | (_, rest) => .ok rest

/-- Passes over an exponent if there is one. -/
def skipScale : Bytes → Except ReadError Bytes
  | [] => .ok []
  | byte :: rest => if byte = 0x65 ∨ byte = 0x45 then skipExponent rest else .ok (byte :: rest)

/-- Passes over what follows the integer digits of a number. -/
def skipTail : Bytes → Except ReadError Bytes
  | 0x2e :: rest =>
    match passDigits 0 rest with
    | (0, _) => .error .malformed
    | (_, rest) => skipScale rest
  | other => skipScale other

/-- Passes over a number after its sign. -/
def skipNumber (input : Bytes) : Except ReadError Bytes :=
  match input with
  | 0x30 :: rest =>
    match passDigits 0 rest with
    | (0, _) => skipTail rest
    | _ => .error .malformed
  | _ =>
    match passDigits 0 input with
    | (0, _) => .error .malformed
    | (_, rest) => skipTail rest

/-- An array or a map that has been opened and not closed. -/
inductive Opened where
  | array
  | map
deriving Repr, DecidableEq

/-- The byte that closes an array or a map. -/
def Opened.closing : Opened → UInt8
  | .array => 0x5d
  | .map => 0x7d

/-- Passes over the name of a member and the colon after it. -/
def skipName (input : Bytes) : Except ReadError Bytes :=
  match skipBlanks input with
  | [] => .error .unfinished
  | byte :: rest =>
    if byte = 0x22 then
      match skipText rest with
      | .error e => .error e
      | .ok rest => expectColon rest
    else .error .malformed

mutual

/-- Passes over a value and over what is left of the arrays and maps around it. -/
def skipFrom : Nat → List Opened → Bytes → Except ReadError Bytes
  | 0, _, _ => .error .malformed
  | rounds + 1, around, input =>
    match skipBlanks input with
    | [] => .error .unfinished
    | byte :: rest =>
      let scalar : Except ReadError Bytes :=
        if byte = 0x6e then expectWord (Bytes.ofText "ull") rest
        else if byte = 0x74 then expectWord (Bytes.ofText "rue") rest
        else if byte = 0x66 then expectWord (Bytes.ofText "alse") rest
        else if byte = 0x2d then skipNumber rest
        else if (digit? byte).isSome then skipNumber (byte :: rest)
        else if byte = 0x22 then skipText rest
        else .error .malformed
      if byte = 0x5b then skipOpened rounds .array around rest
      else if byte = 0x7b then skipOpened rounds .map around rest
      else
        match scalar with
        | .error e => .error e
        | .ok rest => skipOn rounds around rest

/-- Goes on behind an opening bracket or brace. -/
def skipOpened : Nat → Opened → List Opened → Bytes → Except ReadError Bytes
  | 0, _, _, _ => .error .malformed
  | rounds + 1, opened, around, input =>
    match skipBlanks input with
    | [] => .error .unfinished
    | byte :: rest =>
      if byte = opened.closing then skipOn rounds around rest
      else skipNext rounds opened around (byte :: rest)

/-- Passes over the next item or member of the innermost array or map. -/
def skipNext : Nat → Opened → List Opened → Bytes → Except ReadError Bytes
  | 0, _, _, _ => .error .malformed
  | rounds + 1, .array, around, input => skipFrom rounds (.array :: around) input
  | rounds + 1, .map, around, input =>
    match skipName input with
    | .error e => .error e
    | .ok rest => skipFrom rounds (.map :: around) rest

/-- Goes on behind a value. -/
def skipOn : Nat → List Opened → Bytes → Except ReadError Bytes
  | _, [], input => .ok input
  | 0, _, _ => .error .malformed
  | rounds + 1, opened :: around, input =>
    match skipBlanks input with
    | [] => .error .unfinished
    | byte :: rest =>
      if byte = 0x2c then skipNext rounds opened around rest
      else if byte = opened.closing then skipOn rounds around rest
      else .error .malformed

end

/-- Passes over a value in a text of at most `length` bytes. -/
def skipValue (length : Nat) (input : Bytes) : Except ReadError Bytes :=
  skipFrom (3 * length + 3) [] input

end ParameterLog.Json
