/-
Module: ParameterLog.Event
Purpose: what the stores report about their work besides their answers.
Main exports: Event, Event.level, Event.message, Event.fields
-/
import ParameterLog.StoreError

/-!
Records of the past that cannot be used are skipped and reported as warnings, so that one bad record
never blocks the others. What a store does in the normal course of events is reported for debugging:
frames split and put together, records already known, ends of the log that are not complete yet.
-/

namespace ParameterLog

/-- How much an event matters. -/
inductive Level where
  | debug
  | warn
deriving Repr, DecidableEq

/-- The name of a level. -/
def Level.name : Level → String
  | .debug => "DEBUG"
  | .warn => "WARN"

/-- Something that happened during an operation. -/
inductive Event where
  | splitIntoFrames (frames : Nat)
  | reassembled (entries remaining : Nat)
  | undecodableEntry (group : Bytes) (error : StoreError)
  | inconsistentGroup (group : Bytes) (reason : String)
  | openedLog (path : String) (frameSize : Nat)
  | openedLogReadOnly (path : String) (frameSize : Nat)
  | endsInsideFrame (path : String) (offset : Nat)
  | damagedFrame (path : String) (offset : Nat) (error : StoreError)
  | tailIncomplete (path : String) (error : StoreError)
  | untypedEntry (id : Bytes)
  | unreadableParameters (id : Bytes) (error : Json.ReadError)
  | mismatchedId (id payloadId : Bytes)
  | unusableParameters (id : Bytes) (error : StoreError)
  | parametersKnown (id : Bytes)
  | unreadableSet (id : Bytes) (error : Json.ReadError)
  | mismatchedHash (id hash : Bytes)
  | setKnown (hash : Bytes)
  | unusableSet (id : Bytes) (error : StoreError)
  | appended (kind : String) (id : Bytes)
  | loaded (path : String) (parameters sets : Nat)
  | lostRace (id : Bytes) (key : String)
  | openedStore (path : String)
deriving Repr, DecidableEq

namespace Event

/-- Whether an event is a warning. -/
def level : Event → Level
  | .undecodableEntry .. | .inconsistentGroup .. | .unreadableParameters .. | .mismatchedId ..
  | .unusableParameters .. | .unreadableSet .. | .mismatchedHash .. | .unusableSet .. => .warn
  | _ => .debug

/-- The wording of an event. -/
def message : Event → String
  | .splitIntoFrames _ => "split entry into frames"
  | .reassembled .. => "reassembled frames"
  | .undecodableEntry .. => "skipping undecodable entry"
  | .inconsistentGroup .. => "dropping inconsistent frame group"
  | .openedLog .. => "opened parameter log"
  | .openedLogReadOnly .. => "opened parameter log read-only"
  | .endsInsideFrame .. => "log ends inside a frame"
  | .damagedFrame .. => "stopped reading at damaged frame"
  | .tailIncomplete .. => "log tail incomplete"
  | .untypedEntry _ => "skipping untyped entry"
  | .unreadableParameters .. => "skipping unreadable parameters"
  | .mismatchedId .. => "skipping parameters with mismatched id"
  | .unusableParameters .. => "skipping parameters"
  | .parametersKnown _ => "parameters already indexed"
  | .unreadableSet .. => "skipping unreadable parameter set"
  | .mismatchedHash .. => "skipping parameter set with mismatched hash"
  | .setKnown _ => "parameter set already indexed"
  | .unusableSet .. => "skipping parameter set"
  | .appended .. => "appended entry"
  | .loaded .. => "loaded parameter store"
  | .lostRace .. => "lost race for key"
  | .openedStore _ => "opened file parameter store"

/-- A field that is shown in hexadecimal. -/
def hexField (bytes : Bytes) : Json.Value := .text bytes.hex

/-- A field that is shown as a number. -/
def count (n : Nat) : Json.Value := .ofNat n

/-- What an event says beyond its wording. -/
def fields : Event → List (String × Json.Value)
  | .splitIntoFrames frames => [("chunks", count frames)]
  | .reassembled entries remaining => [("entries", count entries), ("remaining", count remaining)]
  | .undecodableEntry group error => [("group", hexField group), ("err", .text error.message)]
  | .inconsistentGroup group reason => [("group", hexField group), ("reason", .text reason)]
  | .openedLog path frameSize => [("path", .text path), ("frame_size", count frameSize)]
  | .openedLogReadOnly path frameSize => [("path", .text path), ("frame_size", count frameSize)]
  | .endsInsideFrame path offset => [("path", .text path), ("offset", count offset)]
  | .damagedFrame path offset error =>
    [("path", .text path), ("offset", count offset), ("err", .text error.message)]
  | .tailIncomplete path error => [("path", .text path), ("err", .text error.message)]
  | .untypedEntry id => [("id", hexField id)]
  | .unreadableParameters id error => [("id", hexField id), ("err", .text error.message)]
  | .mismatchedId id payloadId => [("id", hexField id), ("payload_id", hexField payloadId)]
  | .unusableParameters id error => [("id", hexField id), ("err", .text error.message)]
  | .parametersKnown id => [("id", hexField id)]
  | .unreadableSet id error => [("id", hexField id), ("err", .text error.message)]
  | .mismatchedHash id hash => [("id", hexField id), ("hash", hexField hash)]
  | .setKnown hash => [("hash", hexField hash)]
  | .unusableSet id error => [("id", hexField id), ("err", .text error.message)]
  | .appended kind id => [("kind", .text kind), ("id", hexField id)]
  | .loaded path parameters sets =>
    [("path", .text path), ("parameters", count parameters), ("sets", count sets)]
  | .lostRace id key => [("id", hexField id), ("key", .text key)]
  | .openedStore path => [("path", .text path)]

end Event
end ParameterLog
