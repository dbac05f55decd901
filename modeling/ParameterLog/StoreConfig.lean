/-
Module: ParameterLog.StoreConfig
Purpose: which store a configuration asks for.
Main exports: FileStoreConfig, StoreConfig, StoreConfig.ofValue
-/
import ParameterLog.StoreError
import ParameterLog.Frame
import ParameterLog.Json.Printer
import ParameterLog.Path

/-!
A configuration is a map whose member `type` names the store: `in-memory`, also when it is missing,
or `file`. The other members belong to the store. A memory store keeps them all; a file store has a
file name, a format, a configuration for its catalog and a frame size, and passes over any others.
No configuration at all is a memory store.
-/

namespace ParameterLog

open Json

/-- How the objects in a log are written. -/
inductive RecordFormat where
  | json
deriving Repr, DecidableEq, Inhabited

/-- The name of a format. -/
def RecordFormat.name : RecordFormat → String
  | .json => "json"

/-- The settings of a file store. -/
structure FileStoreConfig where
  filename : String
  format : RecordFormat
  /-- The configuration that is handed on to the catalog. -/
  memoryConfig : Members
  frameSize : Nat
deriving Repr, Inhabited

/-- The message about a value out of range. -/
def wrongValue (found expected : String) : String := s!"invalid value: {found}, expected {expected}"

namespace RecordFormat

/-- The format with a name. -/
def ofName (name : String) : Except String RecordFormat :=
  if name = RecordFormat.json.name then .ok .json
  else .error s!"unknown variant `{name}`, expected `{RecordFormat.json.name}`"

/-- Reads a format: its name, or a map that binds its name to nothing. -/
def ofValue : Value → Except String RecordFormat
  | .text name => ofName name
  | .object [(name, value)] => do
    let format ← ofName name
    match value with
    | .null => return format
    | other => throw (wrongType (describe other) "unit")
  | .object _ => .error (wrongValue "map" "map with a single key")
  | other => .error (wrongType (describe other) "string or map")

end RecordFormat

namespace FileStoreConfig

/-- Reads a file name. -/
def filenameOf : Value → Except String String
  | .text name => .ok name
  | other => .error (wrongType (describe other) "path string")

/-- Reads the configuration of the catalog. -/
def membersOf : Value → Except String Members
  | .object members => .ok members
  | other => .error (wrongType (describe other) "a map")

/-- Reads a frame size. -/
def sizeOf : Value → Except String Nat
  | .number (.integer (.ofNat n)) => .ok n
  | .number (.integer n) => .error (wrongValue (Number.integer n).describe "usize")
  | other => .error (wrongType (describe other) "usize")

/-- Reads a member if it is there. -/
def member {α : Type} (members : Members) (name : String) (read : Value → Except String α) :
    Except String (Option α) :=
  match members.find? name with
  | none => .ok none
  | some value => (read value).map some

/-- Reads the settings in the order of their names; the first fault wins. -/
def ofMembers (members : Members) : Except String FileStoreConfig := do
  let filename ← member members "filename" filenameOf
  let format ← member members "format" RecordFormat.ofValue
  let frameSize ← member members "frame-size" sizeOf
  let memoryConfig ← member members "in-memory-config" membersOf
  match filename with
  | none => throw "missing field `filename`"
  | some filename =>
    return ⟨filename, format.getD .json, memoryConfig.getD [], frameSize.getD defaultFrameSize⟩

/-- The JSON form of the settings. -/
def document (config : FileStoreConfig) : Value :=
  .object [("filename", config.filename), ("format", config.format.name),
    ("in-memory-config", .object config.memoryConfig), ("frame-size", .ofNat config.frameSize)]

/-- The path of the log. -/
def path (home : String) (config : FileStoreConfig) : String :=
  Path.expandHome home config.filename

end FileStoreConfig

/-- A store with its settings. -/
inductive StoreConfig where
  | memory (config : Members)
  | file (config : FileStoreConfig)
deriving Repr, Inhabited

namespace StoreConfig

/-- The type of store that a configuration names. -/
def kindOf (members : Members) : Except StoreError String :=
  match members.find? "type" with
  | none | some .null => .ok "in-memory"
  | some (.text kind) => .ok kind
  | some other => .error (.invalidConfig (.typeNotText other.compactText))

/-- Reads the settings of a file store, which needs a file. -/
def fileOf (members : Members) : Except StoreError StoreConfig :=
  match FileStoreConfig.ofMembers members with
  | .error message => .error (.invalidConfig (.fileSettings message))
  | .ok config =>
    if config.filename.isEmpty then .error (.invalidConfig .emptyFilename) else .ok (.file config)

/-- Reads a configuration. -/
def ofValue : Value → Except StoreError StoreConfig
  | .null => .ok (.memory [])
  | .object members =>
    match kindOf members with
    | .error e => .error e
    | .ok kind =>
      if kind = "in-memory" then .ok (.memory (Members.erase members "type"))
      else if kind = "file" then fileOf members
      else .error (.unknownStoreType kind)
  | other => .error (.invalidConfig (.notAMap other.compactText))

end StoreConfig
end ParameterLog
