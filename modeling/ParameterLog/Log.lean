/-
Module: ParameterLog.Log
Purpose: a log that is open for reading and perhaps for appending.
Main exports: Log, Log.opened, Log.read, Log.write
-/
import ParameterLog.Cursor

/-!
Any number of programs may have one log open, each with a cursor of its own. Writing appends all
frames of an entry at once, behind whatever the log holds by then, so entries do not mix unless a
program appends them by other means. Each writing makes up an identifier for the group of its
frames.
-/

namespace ParameterLog

/-- An open log. -/
structure Log where
  path : String
  /-- The size of the frames that entries are cut into for writing. -/
  frameSize : Nat
  writable : Bool
  cursor : Cursor
deriving Repr, DecidableEq, Inhabited

namespace Log

/-- A log that has just been opened. -/
def opened (path : String) (frameSize : Nat) (writable : Bool) : Log :=
  ⟨path, frameSize, writable, .start⟩

/-- The event of opening a log. -/
def openedEvent (log : Log) : Event :=
  if log.writable then .openedLog log.path log.frameSize
  else .openedLogReadOnly log.path log.frameSize

/-- Reads what has been added to the content since the last read. -/
def read (log : Log) (content : Bytes) : Outcome Log Reading :=
  (log.cursor.read log.path content).mapState fun cursor => { log with cursor := cursor }

/-- Appends an entry to the content, cut into frames of a group. -/
def write (log : Log) (entry : Entry) (group content : Bytes) : Outcome Bytes Unit :=
  if !log.writable then .fail content (.io "log is open read-only")
  else
    match entry.frames group log.frameSize with
    | .error e => .fail content e
    | .ok frames =>
      match Frame.encodeAll frames with
      | .error e => ⟨.error e, content, [.splitIntoFrames frames.length]⟩
      | .ok bytes => ⟨.ok (), content ++ bytes, [.splitIntoFrames frames.length]⟩

end Log
end ParameterLog
