/-
Module: ParameterLog.StoreError
Purpose: the ways in which storing and finding parameters can fail.
Main exports: Malformation, ConfigFault, StoreError, StoreError.message, StoreError.retryable
-/
import ParameterLog.Bytes.Hex
import ParameterLog.Json.ReadError

/-!
Every failure is a cause; its wording is a function of the cause. Only a frame that is cut off at
the end of the log is worth another try: a writer may be about to append the rest of it.
-/

namespace ParameterLog

/-- What is wrong with a record. -/
inductive Malformation where
  /-- An entry of no bytes. -/
  | emptyEntry
  /-- An entry that ends inside its header. -/
  | incompleteHeader
  /-- A kind byte that stands for no kind of entry. -/
  | unknownKind (byte : UInt8)
  /-- An identifier longer than the entry it stands in. -/
  | idExceedsEntry (idLength entryLength : Nat)
  /-- A grouping identifier whose length does not fit its field. -/
  | frameIdTooLong
  /-- Frame data whose length does not fit its field. -/
  | frameDataTooLong
  /-- A replacement for an action that no member of the set is for. -/
  | actionNotInSet
  /-- A member identifier that is no hexadecimal text. -/
  | memberId (text : String) (error : HexError)
  /-- Another reason, in words. -/
  | other (reason : String)
deriving Repr, DecidableEq

/-- The wording of a malformation. -/
def Malformation.message : Malformation → String
  | .emptyEntry => "empty entry"
  | .incompleteHeader => "entry header is incomplete"
  | .unknownKind byte => s!"unknown entry type {byte.toNat}"
  | .idExceedsEntry idLength entryLength =>
    s!"id length {idLength} exceeds entry of {entryLength} bytes"
  | .frameIdTooLong => "frame id is too long"
  | .frameDataTooLong => "frame data is too long"
  | .actionNotInSet => "action not found in parameter set"
  | .memberId text error => s!"invalid parameters id {Text.quote text}: {error.message}"
  | .other reason => reason

/-- The least size of a frame: its header and one byte of data. -/
def leastFrameSize : Nat := 26

/-- The greatest size of a frame: its header and as much data as its length field can tell. -/
def greatestFrameSize : Nat := 65560

/-- What is wrong with a configuration. -/
inductive ConfigFault where
  /-- A frame size that leaves no room for data or more than a frame can hold. -/
  | frameSize (size : Nat)
  /-- A configuration that is no map; `found` is its compact text. -/
  | notAMap (found : String)
  /-- A store type that is no text; `found` is its compact text. -/
  | typeNotText (found : String)
  /-- Settings of a file store that cannot be read. -/
  | fileSettings (message : String)
  /-- A file store without a file. -/
  | emptyFilename
  /-- Another reason, in words. -/
  | other (reason : String)
deriving Repr, DecidableEq

/-- The wording of a configuration fault. -/
def ConfigFault.message : ConfigFault → String
  | .frameSize size =>
    s!"frame size must be between {leastFrameSize} and {greatestFrameSize} bytes, got {size}"
  | .notAMap found => s!"expected an object, got {found}"
  | .typeNotText found => s!"store type must be a string, got {found}"
  | .fileSettings message => s!"file store: {message}"
  | .emptyFilename => "file store: filename is empty"
  | .other reason => reason

/-- Why an operation failed. -/
inductive StoreError where
  /-- The file system refused. -/
  | io (message : String)
  /-- A JSON text could not be read. -/
  | json (error : Json.ReadError)
  /-- An entry or a frame is written in a version that is not supported. -/
  | unsupportedVersion (context : String) (found expected : Nat)
  /-- A record breaks the rules of its format. -/
  | malformedRecord (fault : Malformation)
  /-- The log ends inside the frame that starts at the offset. -/
  | truncatedFrame (offset : Nat)
  /-- A record is larger than the log takes. -/
  | recordTooLarge (size limit : Nat)
  /-- Other parameters occupy the lookup key. -/
  | duplicateKey (key : String)
  /-- An object that needs an identifier has none. -/
  | missingId (context : String)
  /-- A record that was written was not found by reading the log again. -/
  | readBackFailed (id : String)
  /-- A store cannot be built from its configuration. -/
  | invalidConfig (fault : ConfigFault)
  /-- There is no store of the type. -/
  | unknownStoreType (kind : String)
  /-- A parameter set names parameters that are not stored. -/
  | missingParameters (id : String)
  /-- The lock of a store cannot be trusted any more. -/
  | poisoned
deriving Repr, DecidableEq

namespace StoreError

/-- The wording of an error. -/
def message : StoreError → String
  | .io message => s!"I/O error: {message}"
  | .json error => s!"JSON error: {error.message}"
  | .unsupportedVersion context found expected =>
    s!"Unsupported {context} version {found} (expected {expected})"
  | .malformedRecord fault => s!"Malformed record: {fault.message}"
  | .truncatedFrame offset => s!"Truncated frame at offset {offset}"
  | .recordTooLarge size limit => s!"Record of {size} bytes exceeds the limit of {limit} bytes"
  | .duplicateKey key => s!"Parameters already exist for {key}"
  | .missingId context => s!"{context} has no ID"
  | .readBackFailed id => s!"Record {id} is not visible after writing it"
  | .invalidConfig fault => s!"Invalid store configuration: {fault.message}"
  | .unknownStoreType kind => s!"Not a valid parameter store type: {kind}"
  | .missingParameters id => s!"Parameters {id} referenced by a parameter set were not found"
  | .poisoned => "Store lock poisoned"

/-- Whether a later read can clear the error. -/
def retryable : StoreError → Bool
  | .truncatedFrame _ => true
  | _ => false

theorem retryable_iff {e : StoreError} :
    e.retryable = true ↔ ∃ offset, e = .truncatedFrame offset := by
  cases e <;> simp [retryable]

end StoreError
end ParameterLog
