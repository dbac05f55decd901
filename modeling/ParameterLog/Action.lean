/-
Module: ParameterLog.Action
Purpose: what parameters are generated for: an action and a group of records.
Main exports: contentHash, Action, ParameterGroup, LookupKey, LookupKey.of
-/
import ParameterLog.Bytes.Blake3
import ParameterLog.StoreError
import ParameterLog.Json.Printer
import ParameterLog.Record.Shape

/-!
Parameters are generated for an action in its configuration and for a group of records. A
configuration is known by its content hash: the BLAKE3 hash of its compact text, which is canonical
because maps are ordered. The lookup key of parameters is the identifier of the action, the hash of
its configuration and the hash of the group; an action without identifier has no key.
-/

namespace ParameterLog

open Json

/-- The hash of a map by its content. -/
def contentHash (members : Members) : Bytes := (Value.object members).compact.blake3

/-- Two maps hold the same values. -/
def sameMap (a b : Members) : Bool := Value.sameMembers a b

/-- A pipeline action. -/
structure Action where
  kind : String
  id : Bytes
  name : String
  description : String
  config : Members
deriving Repr, Inhabited

namespace Action

/-- The hash of the action's configuration. -/
def configHash (action : Action) : Bytes := contentHash action.config

/-- Two actions are the same. -/
def same (a b : Action) : Bool :=
  a.kind == b.kind && a.id == b.id && a.name == b.name && a.description == b.description &&
    sameMap a.config b.config

/-- The JSON form of an action. -/
def document (action : Action) : Value :=
  .object [("type", action.kind), ("id", action.id.hex), ("name", action.name),
    ("description", action.description), ("config", .object action.config)]

/-- The members of an action as far as they have been read. -/
structure Draft where
  kind : Option String
  id : Option Bytes
  name : Option String
  description : Option String
  config : Option Members

/-- How actions are read: description and configuration may be missing. -/
def record : RecordShape Draft Action where
  name := "struct Action"
  members := [
    .of "type" false Shape.text (·.kind) fun value draft => { draft with kind := some value },
    .of "id" false Shape.hex (·.id) fun value draft => { draft with id := some value },
    .of "name" false Shape.text (·.name) fun value draft => { draft with name := some value },
    .of "description" true Shape.text (·.description)
      fun value draft => { draft with description := some value },
    .of "config" true Shape.map (·.config) fun value draft => { draft with config := some value }]
  blank := ⟨none, none, none, none, none⟩
  finish draft := do
    let kind ← required "type" draft.kind
    let id ← required "id" draft.id
    let name ← required "name" draft.name
    return ⟨kind, id, name, draft.description.getD "", draft.config.getD []⟩

end Action

/-- A group of records that share one set of parameters. -/
structure ParameterGroup where
  hash : Bytes
  data : Members
deriving Repr, Inhabited

namespace ParameterGroup

/-- The group of some data, with the hash of the data. -/
def ofData (data : Members) : ParameterGroup := ⟨contentHash data, data⟩

/-- Two groups are the same. -/
def same (a b : ParameterGroup) : Bool := a.hash == b.hash && sameMap a.data b.data

/-- The JSON form of a group. -/
def document (group : ParameterGroup) : Value :=
  .object [("hash", group.hash.hex), ("data", .object group.data)]

/-- The members of a group as far as they have been read. -/
structure Draft where
  hash : Option Bytes
  data : Option Members

/-- How groups are read: the data may be missing. -/
def record : RecordShape Draft ParameterGroup where
  name := "struct ParameterGroup"
  members := [
    .of "hash" false Shape.hex (·.hash) fun value draft => { draft with hash := some value },
    .of "data" true Shape.map (·.data) fun value draft => { draft with data := some value }]
  blank := ⟨none, none⟩
  finish draft := do
    let hash ← required "hash" draft.hash
    return ⟨hash, draft.data.getD []⟩

end ParameterGroup

/-- What parameters are looked up by. -/
structure LookupKey where
  actionId : Bytes
  configHash : Bytes
  groupHash : Bytes
deriving Repr, DecidableEq, Inhabited

namespace LookupKey

/-- The key of an action in its configuration and a group. -/
def of (action : Action) (group : ParameterGroup) : Except StoreError LookupKey :=
  if action.id.isEmpty then .error (.missingId "action")
  else .ok ⟨action.id, action.configHash, group.hash⟩

/-- The wording of a key. -/
def text (key : LookupKey) : String :=
  s!"action {key.actionId.hex} (config {key.configHash.hex}) and group {key.groupHash.hex}"

end LookupKey
end ParameterLog
