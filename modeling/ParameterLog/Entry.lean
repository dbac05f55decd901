/-
Module: ParameterLog.Entry
Purpose: the logical records of a log and their binary form.
Main exports: Entry.Kind, Entry, Entry.encode, Entry.decode
-/
import ParameterLog.StoreError

/-!
An entry is a byte string with a kind and an identifier. Its binary form is

    version (1 byte) | kind (1 byte) | length of the identifier (2 bytes) | identifier | data

with the length little-endian. The data is whatever follows the identifier, so the form has no
length of its own. The log takes entries of at most 65535 bytes.
-/

namespace ParameterLog

/-- The version in which entries are written. -/
def entryVersion : UInt8 := 1

/-- The bytes of an entry before its identifier. -/
def entryHeaderSize : Nat := 4

/-- The greatest size of a written entry. -/
def greatestEntrySize : Nat := 65535

/-- The kind of object that an entry stores. -/
inductive Entry.Kind where
  | untyped
  | parameters
  | parameterSet
deriving Repr, DecidableEq, Inhabited

namespace Entry.Kind

/-- The byte that stands for a kind. -/
def byte : Entry.Kind → UInt8
  | .untyped => 0
  | .parameters => 1
  | .parameterSet => 2

/-- The name of a kind. -/
def name : Entry.Kind → String
  | .untyped => "none"
  | .parameters => "parameters"
  | .parameterSet => "parameter-set"

/-- The kind that a byte stands for. -/
def ofByte (byte : UInt8) : Except StoreError Entry.Kind :=
  if byte = 0 then .ok .untyped
  else if byte = 1 then .ok .parameters
  else if byte = 2 then .ok .parameterSet
  else .error (.malformedRecord (.unknownKind byte))

@[simp] theorem ofByte_byte (kind : Entry.Kind) : ofByte kind.byte = .ok kind := by
  cases kind <;> rfl

end Entry.Kind

/-- A logical record: data with a kind and an identifier. -/
structure Entry where
  kind : Entry.Kind
  id : Bytes
  data : Bytes
deriving Repr, DecidableEq, Inhabited

namespace Entry

/-- The size of the binary form. -/
def size (entry : Entry) : Nat := entryHeaderSize + entry.id.length + entry.data.length

/-- The binary form of an entry whatever its size. -/
def toBytes (entry : Entry) : Bytes :=
  entryVersion :: entry.kind.byte ::
    (Bytes.littleEndian 2 entry.id.length ++ entry.id ++ entry.data)

/-- The binary form of an entry that the log takes. -/
def encode (entry : Entry) : Except StoreError Bytes :=
  if greatestEntrySize < entry.id.length then
    .error (.recordTooLarge entry.id.length greatestEntrySize)
  else if greatestEntrySize < entry.size then .error (.recordTooLarge entry.size greatestEntrySize)
  else .ok entry.toBytes

/-- The entry that a byte string is the binary form of. -/
def decode (bytes : Bytes) : Except StoreError Entry :=
  match bytes with
  | [] => .error (.malformedRecord .emptyEntry)
  | version :: rest =>
    if version ≠ entryVersion then
      .error (.unsupportedVersion "entry" version.toNat entryVersion.toNat)
    else
      match rest with
      | kindByte :: low :: high :: rest =>
        match Kind.ofByte kindByte with
        | .error e => .error e
        | .ok kind =>
          let idLength := Bytes.ofLittleEndian [low, high]
          match Bytes.splitExactly? idLength rest with
          | none => .error (.malformedRecord (.idExceedsEntry idLength bytes.length))
          | some (id, data) => .ok ⟨kind, id, data⟩
      | _ => .error (.malformedRecord .incompleteHeader)

@[simp] theorem length_toBytes (entry : Entry) : entry.toBytes.length = entry.size := by
  simp [toBytes, size, entryHeaderSize]
  omega

end Entry
end ParameterLog
