/-
Module: ParameterLog.ParameterSet
Purpose: sets of parameters that are named by their members.
Main exports: ParameterSet, ParameterSet.hashInput, ParameterSet.replace, SetRecord,
  ParameterSet.restore
-/
import ParameterLog.Parameters

/-!
The hash of a set is the BLAKE3 hash of its members' identifiers in increasing order, each behind
its length in eight bytes: the same members in another order give the same hash. A set is stored as
a record that holds the identifiers in the members' order and the hash. Restoring a set looks its
members up again and keeps the stored hash as it is.
-/

namespace ParameterLog

open Json

/-- The stored form of a set: the members' identifiers in hexadecimal, and the hash. -/
structure SetRecord where
  members : List String
  hash : Bytes
deriving Repr, DecidableEq, Inhabited

namespace SetRecord

/-- The JSON form of a set record. -/
def document (record : SetRecord) : Value :=
  .object [("parameters", .array (record.members.map .text)), ("hash", record.hash.hex)]

/-- The members of a set record as far as they have been read. -/
structure Draft where
  members : Option (List String)
  hash : Option Bytes

/-- How set records are read. -/
def record : RecordShape Draft SetRecord where
  name := "struct ParameterSetRecord"
  members := [
    .of "parameters" false (Shape.list Shape.text) (·.members)
      fun value draft => { draft with members := some value },
    .of "hash" false Shape.hex (·.hash) fun value draft => { draft with hash := some value }]
  blank := ⟨none, none⟩
  finish draft := do
    let members ← required "parameters" draft.members
    let hash ← required "hash" draft.hash
    return ⟨members, hash⟩

/-- Reads the stored form of a set. -/
def ofBytes (bytes : Bytes) : Except ReadError SetRecord := record.shape.ofBytes bytes

end SetRecord

/-- A collection of parameters with a hash. -/
structure ParameterSet where
  hash : Bytes
  members : List Parameters
  /-- The store that handed the set out. -/
  store : Option StoreId
deriving Repr, Inhabited

namespace ParameterSet

/-- Identifiers in increasing order. -/
def sortIds (ids : List Bytes) : List Bytes := ids.mergeSort fun a b => decide (a ≤ b)

/-- The byte string whose hash names a set with the members' identifiers. -/
def hashInput (ids : List Bytes) : Bytes :=
  (sortIds ids).flatMap fun id => Bytes.littleEndian 8 id.length ++ id

/-- The identifiers of the members. -/
def ids (set : ParameterSet) : List Bytes := set.members.map (·.id)

/-- The hash of members that all have identifiers. -/
def hashOf (members : List Parameters) : Except StoreError Bytes :=
  if members.any (·.id.isEmpty) then .error (.missingId "parameters")
  else .ok (hashInput (members.map (·.id))).blake3

/-- The set of some parameters. -/
def ofMembers (members : List Parameters) : Except StoreError ParameterSet :=
  (hashOf members).map fun hash => ⟨hash, members, none⟩

/-- Computes the hash anew; a set whose members lack an identifier stays as it is. -/
def rehash (set : ParameterSet) : Except StoreError Unit × ParameterSet :=
  match hashOf set.members with
  | .ok hash => (.ok (), { set with hash := hash })
  | .error e => (.error e, set)

/-- Puts parameters in the place of the first member for the same action, if there is one. -/
def substitute (p : Parameters) : List Parameters → Option (List Parameters)
  | [] => none
  | member :: rest =>
    if member.action.id = p.action.id then some (p :: rest)
    else (substitute p rest).map (member :: ·)

/-- Replaces the first member for the same action, then computes the hash anew. -/
def replace (set : ParameterSet) (p : Parameters) : Except StoreError Unit × ParameterSet :=
  match substitute p set.members with
  | none => (.error (.malformedRecord .actionNotInSet), set)
  | some members => rehash { set with members := members }

/-- Whether no member has a value. -/
def isEmpty (set : ParameterSet) : Bool := set.members.all (·.value.isNone)

/-- The set as handed out by a store. -/
def stamp (set : ParameterSet) (store : StoreId) : ParameterSet := { set with store := some store }

/-- Two sets are the same, whichever stores handed them out. -/
def same (a b : ParameterSet) : Bool :=
  a.hash == b.hash && a.members.length == b.members.length &&
    (a.members.zip b.members).all fun (p, q) => p.same q

/-- The stored form of a set. -/
def toRecord (set : ParameterSet) : SetRecord := ⟨set.ids.map Bytes.hex, set.hash⟩

/-- The JSON form of a set. -/
def document (set : ParameterSet) : Value := set.toRecord.document

/-- The stored form of a set in bytes. -/
def toBytes (set : ParameterSet) : Bytes := set.document.compact

/-- The identifier that a record names a member by. -/
def memberId (text : String) : Except StoreError Bytes :=
  (Bytes.ofHex text).mapError fun e => .malformedRecord (.memberId text e)

/-- Looks the members of a record up, in their order. -/
def restoreMembers (lookup : Bytes → Option Parameters) :
    List String → Except StoreError (List Parameters)
  | [] => .ok []
  | text :: rest =>
    match memberId text with
    | .error e => .error e
    | .ok id =>
      match lookup id with
      | none => .error (.missingParameters text)
      | some p =>
        match restoreMembers lookup rest with
        | .error e => .error e
        | .ok members => .ok (p :: members)

/-- The set of a record, its members looked up. -/
def restore (record : SetRecord) (lookup : Bytes → Option Parameters) :
    Except StoreError ParameterSet :=
  (restoreMembers lookup record.members).map fun members => ⟨record.hash, members, none⟩

/-- The identifiers that restoring a record looks up before it succeeds or fails. -/
def lookedUp (lookup : Bytes → Option Parameters) : List String → List Bytes
  | [] => []
  | text :: rest =>
    match memberId text with
    | .error _ => []
    | .ok id => if (lookup id).isSome then id :: lookedUp lookup rest else [id]

end ParameterSet
end ParameterLog
