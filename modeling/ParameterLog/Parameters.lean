/-
Module: ParameterLog.Parameters
Purpose: the parameters of an action for a group, and their stored form.
Main exports: StoreId, Parameters, Parameters.key, Parameters.toBytes, Parameters.ofBytes
-/
import ParameterLog.Action
import ParameterLog.Frame

/-!
Parameters have an identifier of their own, which is made up when they are generated. Their value is
any JSON value, or nothing when the action needs none; `null` is written for nothing, so a value
that is `null` is nothing once it has been stored. A store marks the parameters that it hands out,
and the mark is no part of the stored form.
-/

namespace ParameterLog

open Json

/-- The identity of a store. -/
structure StoreId where
  bytes : Bytes
deriving Repr, DecidableEq, Inhabited

/-- The hexadecimal digits of a store's identity in groups of 8, 4, 4, 4 and 12. -/
def StoreId.text (id : StoreId) : String :=
  let digits := id.bytes.hex.toList
  let part := fun first count => String.ofList ((digits.drop first).take count)
  "-".intercalate [part 0 8, part 8 4, part 12 4, part 16 4, part 20 12]

/-- Parameters generated for an action and a group. -/
structure Parameters where
  id : Bytes
  action : Action
  group : ParameterGroup
  value : Option Value
  /-- The store that handed the parameters out. -/
  store : Option StoreId
deriving Repr, Inhabited

namespace Parameters

/-- Parameters that no store has handed out. -/
def new (id : Bytes) (action : Action) (group : ParameterGroup) (value : Option Value) :
    Parameters := ⟨id, action, group, value, none⟩

/-- The lookup key. -/
def key (p : Parameters) : Except StoreError LookupKey := LookupKey.of p.action p.group

/-- Whether the parameters were generated for the action in its configuration and for the group. -/
def validFor (p : Parameters) (action : Action) (group : ParameterGroup) : Bool :=
  p.action.id == action.id && p.action.configHash == action.configHash && p.group.hash == group.hash

/-- The parameters as handed out by a store. -/
def stamp (p : Parameters) (store : StoreId) : Parameters := { p with store := some store }

/-- Two parameters are the same, whichever stores handed them out. -/
def same (a b : Parameters) : Bool :=
  a.id == b.id && a.action.same b.action && a.group.same b.group &&
    Value.sameOption a.value b.value

/-- The JSON form of parameters. -/
def document (p : Parameters) : Value :=
  .object [("id", p.id.hex), ("action", p.action.document), ("parameter_group", p.group.document),
    ("parameters", Value.ofOption p.value)]

/-- The stored form of parameters. -/
def toBytes (p : Parameters) : Bytes := p.document.compact

/-- The members of parameters as far as they have been read. -/
structure Draft where
  id : Option Bytes
  action : Option Action
  group : Option ParameterGroup
  value : Option (Option Value)

/-- How parameters are read: the value may be missing. -/
def record : RecordShape Draft Parameters where
  name := "struct Parameters"
  members := [
    .of "id" false Shape.hex (·.id) fun value draft => { draft with id := some value },
    .of "action" false Action.record.shape (·.action)
      fun value draft => { draft with action := some value },
    .of "parameter_group" false ParameterGroup.record.shape (·.group)
      fun value draft => { draft with group := some value },
    .of "parameters" true Shape.optional (·.value)
      fun value draft => { draft with value := some value }]
  blank := ⟨none, none, none, none⟩
  finish draft := do
    let id ← required "id" draft.id
    let action ← required "action" draft.action
    let group ← required "parameter_group" draft.group
    return new id action group (draft.value.getD none)

/-- Reads the stored form of parameters. -/
def ofBytes (bytes : Bytes) : Except ReadError Parameters := record.shape.ofBytes bytes

end Parameters
end ParameterLog
