/-
Module: ParameterLog.Record.Shape
Purpose: reading typed fields from JSON, as text and as values.
Main exports: Shape, Shape.ofBytes, Member, RecordShape, RecordShape.shape
-/
import ParameterLog.Json.Skip

/-!
Stored objects are JSON maps with known members. A shape says how one type is read, in two ways:
from a text in one pass, where the first fault met is the error, and from a value that has been read
already. Both follow the same rules. A record is a map with members in any order, of which unknown
ones are passed over and none may stand twice; or an array that holds the members in their order.
Members that are not required may be missing.
-/

namespace ParameterLog

open Json

/-- How values of a type are read. -/
structure Shape (α : Type) where
  /-- Reads a value off the front of a text, given a bound for the length of the whole text and the
  number of levels that it may nest. -/
  fromText : Nat → Nat → Bytes → Except ReadError (α × Bytes)
  /-- Reads a value that has been read already; an error is a message. -/
  fromValue : Value → Except String α

namespace Shape

/-- The object that a whole text holds. -/
def ofBytes {α : Type} (shape : Shape α) (bytes : Bytes) : Except ReadError α :=
  atEnd (shape.fromText bytes.length deepest bytes)

/-- Refuses what a text starts with: a scalar is read first, so that its own faults win. -/
def refuse {α : Type} (expected : String) (input : Bytes) : Except ReadError α :=
  match input with
  | [] => .error .unfinished
  | byte :: _ =>
    if byte = 0x5b then .error (.mismatch (wrongType "sequence" expected))
    else if byte = 0x7b then .error (.mismatch (wrongType "map" expected))
    else
      match readValue 0 0 input with
      | .error e => .error e
      | .ok (value, _) => .error (.mismatch (wrongType (describe value) expected))

/-- A text that is parsed further. -/
def ofText {α : Type} (expected : String) (parse : String → Except String α) : Shape α where
  fromText _ _ input :=
    match skipBlanks input with
    | 0x22 :: rest =>
      match readText rest with
      | .error e => .error e
      | .ok (text, rest) =>
        match parse text with
        | .ok value => .ok (value, rest)
        | .error message => .error (.mismatch message)
    | other => refuse expected other
  fromValue
    | .text text => parse text
    | other => .error (wrongType (describe other) expected)

/-- Any text. -/
def text : Shape String := ofText "a string" .ok

/-- Bytes in hexadecimal. -/
def hex : Shape Bytes :=
  ofText "a hex encoded string" fun text => (Bytes.ofHex text).mapError HexError.message

/-- A map with any members. -/
def map : Shape Members where
  fromText length levels input :=
    match skipBlanks input with
    | 0x7b :: rest =>
      match readValue length levels (0x7b :: rest) with
      | .ok (.object members, rest) => .ok (members, rest)
      | .ok _ => .error .malformed
      | .error e => .error e
    | other => refuse "a map" other
  fromValue
    | .object members => .ok members
    | other => .error (wrongType (describe other) "a map")

/-- Any value but `null`, which stands for nothing. -/
def present : Value → Option Value
  | .null => none
  | value => some value

/-- Any value, or nothing. -/
def optional : Shape (Option Value) where
  fromText length levels input :=
    (readValue length levels input).map fun (value, rest) => (present value, rest)
  fromValue value := .ok (present value)

/-- A list of one shape. -/
def list {α : Type} (item : Shape α) : Shape (List α) where
  fromText length levels input :=
    match skipBlanks input with
    | 0x5b :: rest =>
      match levels with
      | 0 => .error .malformed
      | levels + 1 => readItems (item.fromText length levels) length true rest []
    | other => refuse "a sequence" other
  fromValue
    | .array items => items.mapM item.fromValue
    | other => .error (wrongType (describe other) "a sequence")

end Shape

/-- A member of a record that is collected in a draft. -/
structure Member (δ : Type) where
  name : String
  /-- Whether the record can do without it. -/
  dispensable : Bool
  /-- Whether the draft has it already. -/
  given : δ → Bool
  fromText : Nat → Nat → Bytes → δ → Except ReadError (δ × Bytes)
  fromValue : Value → δ → Except String δ

/-- A member of a shape with its place in the draft. -/
def Member.of {α δ : Type} (name : String) (dispensable : Bool) (shape : Shape α)
    (get : δ → Option α) (set : α → δ → δ) : Member δ where
  name := name
  dispensable := dispensable
  given draft := (get draft).isSome
  fromText length levels input draft :=
    match shape.fromText length levels input with
    | .ok (value, rest) => .ok (set value draft, rest)
    | .error e => .error e
  fromValue value draft :=
    match shape.fromValue value with
    | .ok value => .ok (set value draft)
    | .error message => .error message

/-- A record: its name in messages, its members in order, and how a draft is finished. -/
structure RecordShape (δ α : Type) where
  name : String
  members : List (Member δ)
  blank : δ
  finish : δ → Except String α

/-- The value of a required member. -/
def required {α : Type} (name : String) : Option α → Except String α
  | some value => .ok value
  | none => .error s!"missing field `{name}`"

namespace RecordShape

variable {δ α : Type}

/-- The member with a name. -/
def find? (record : RecordShape δ α) (name : String) : Option (Member δ) :=
  record.members.find? fun member => member.name == name

/-- What is expected where the record is too short. -/
def wanted (record : RecordShape δ α) : String :=
  s!"{record.name} with {record.members.length} elements"

/-- Reads what follows the name of a member. -/
def memberFromText (record : RecordShape δ α) (length levels : Nat) (name : String) (draft : δ)
    (input : Bytes) : Except ReadError (δ × Bytes) :=
  match record.find? name with
  | some member =>
    if member.given draft then .error (.mismatch s!"duplicate field `{name}`")
    else
      match expectColon input with
      | .error e => .error e
      | .ok rest => member.fromText length levels rest draft
  | none =>
    match expectColon input with
    | .error e => .error e
    | .ok rest =>
      match skipValue length rest with
      | .error e => .error e
      | .ok rest => .ok (draft, rest)

/-- Reads the members that stand in an array, `index` of them read before. -/
def itemsFromText (record : RecordShape δ α) (length levels : Nat) :
    Nat → List (Member δ) → Bytes → δ → Except ReadError (δ × Bytes)
  | _, [], input, draft => .ok (draft, input)
  | index, member :: rest, input, draft =>
    match nextItem (index == 0) input with
    | .error e => .error e
    | .ok (true, input) =>
      match member.fromText length levels input draft with
      | .error e => .error e
      | .ok (draft, input) => record.itemsFromText length levels (index + 1) rest input draft
    | .ok (false, input) =>
      if member.dispensable then record.itemsFromText length levels (index + 1) rest input draft
      else .error (.mismatch s!"invalid length {index}, expected {record.wanted}")

/-- Finishes a draft that was read from a text. -/
def finishText (record : RecordShape δ α) (draft : δ) (rest : Bytes) :
    Except ReadError (α × Bytes) :=
  match record.finish draft with
  | .ok value => .ok (value, rest)
  | .error message => .error (.mismatch message)

/-- Takes the bracket that closes an array off the front. -/
def closeArray (input : Bytes) : Except ReadError Bytes :=
  match skipBlanks input with
  | [] => .error .unfinished
  | byte :: rest => if byte = 0x5d then .ok rest else .error .malformed

/-- Reads a record off the front of a text. -/
def fromText (record : RecordShape δ α) (length levels : Nat) (input : Bytes) :
    Except ReadError (α × Bytes) :=
  match skipBlanks input with
  | 0x7b :: rest =>
    match levels with
    | 0 => .error .malformed
    | levels + 1 =>
      match readMembers (record.memberFromText length levels) length true rest record.blank with
      | .error e => .error e
      | .ok (draft, rest) => record.finishText draft rest
  | 0x5b :: rest =>
    match levels with
    | 0 => .error .malformed
    | levels + 1 =>
      match record.itemsFromText length levels 0 record.members rest record.blank with
      | .error e => .error e
      | .ok (draft, rest) =>
        match record.finishText draft rest with
        | .error e => .error e
        | .ok (value, rest) => (closeArray rest).map (value, ·)
  | other => Shape.refuse record.name other

/-- Reads the members of a map that has been read already. -/
def membersFromValue (record : RecordShape δ α) : Members → δ → Except String δ
  | [], draft => .ok draft
  | (name, value) :: rest, draft =>
    match record.find? name with
    | none => record.membersFromValue rest draft
    | some member =>
      match member.fromValue value draft with
      | .error message => .error message
      | .ok draft => record.membersFromValue rest draft

/-- Reads the members that stand in an array, `index` of them read before, and gives the items that
are left. -/
def itemsFromValue (record : RecordShape δ α) :
    Nat → List (Member δ) → List Value → δ → Except String (δ × List Value)
  | _, [], items, draft => .ok (draft, items)
  | index, member :: rest, [], draft =>
    if member.dispensable then record.itemsFromValue (index + 1) rest [] draft
    else .error s!"invalid length {index}, expected {record.wanted}"
  | index, member :: rest, item :: items, draft =>
    match member.fromValue item draft with
    | .error message => .error message
    | .ok draft => record.itemsFromValue (index + 1) rest items draft

/-- Reads a record that has been read as a value already. -/
def fromValue (record : RecordShape δ α) : Value → Except String α
  | .object members =>
    match record.membersFromValue members record.blank with
    | .error message => .error message
    | .ok draft => record.finish draft
  | .array items =>
    match record.itemsFromValue 0 record.members items record.blank with
    | .error message => .error message
    | .ok (draft, rest) =>
      match record.finish draft with
      | .error message => .error message
      | .ok value =>
        if rest.isEmpty then .ok value
        else .error s!"invalid length {items.length}, expected fewer elements in array"
  | other => .error (wrongType (describe other) record.name)

/-- The shape of a record. -/
def shape (record : RecordShape δ α) : Shape α := ⟨record.fromText, record.fromValue⟩

end RecordShape
end ParameterLog
