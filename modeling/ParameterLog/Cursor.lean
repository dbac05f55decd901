/-
Module: ParameterLog.Cursor
Purpose: reading a growing log, each time from where the last read stopped.
Main exports: Cursor, Cursor.start, Reading, Cursor.read
-/
import ParameterLog.Assembly
import ParameterLog.Outcome

/-!
A cursor stands in front of the first byte that has not been read as part of a whole frame, and
keeps the frames of entries that are not complete yet. A read takes the frames from there on and
puts them together with those it keeps.

A frame that is cut off at the end of the log ends the read: the cursor stays in front of it, and
the entries completed before it are given out. Any other bytes that are no frame make the read fail;
the frames before them are kept, and no entries are given out until a later read succeeds.
-/

namespace ParameterLog

/-- How far a log has been read. -/
structure Cursor where
  /-- The offset of the first byte that has not been consumed. -/
  offset : Nat
  /-- The frames of entries that are not complete yet. -/
  pending : List Frame
  /-- Where the last read found a frame cut off, if it did. -/
  truncatedAt : Option Nat
deriving Repr, DecidableEq, Inhabited

/-- What one read gives out. -/
structure Reading where
  entries : List Entry
  /-- The error about a frame that was cut off at the end of the log. -/
  truncated : Option StoreError
deriving Repr, DecidableEq, Inhabited

namespace Cursor

/-- The cursor of a log that has not been read. -/
def start : Cursor := ⟨0, [], none⟩

/-- Takes frames in and gives out the entries that they complete. -/
def take (cursor : Cursor) (scan : Frame.Scan) (truncatedAt : Option Nat)
    (truncated : Option StoreError) : Outcome Cursor Reading :=
  let assembly := Assembly.ofFrames (cursor.pending ++ scan.frames)
  ⟨.ok ⟨assembly.entries, truncated⟩, ⟨scan.stop, assembly.remaining, truncatedAt⟩, assembly.events⟩

/-- Keeps frames until a later read. -/
def keep (cursor : Cursor) (scan : Frame.Scan) : Cursor :=
  { cursor with offset := scan.stop, pending := cursor.pending ++ scan.frames }

/-- Reads what follows the cursor in the content of a log. -/
def read (path : String) (content : Bytes) (cursor : Cursor) : Outcome Cursor Reading :=
  let scan := Frame.scan cursor.offset (content.drop cursor.offset)
  match scan.failure with
  | none => cursor.take scan none none
  | some e =>
    if e.retryable then
      (cursor.take scan (some scan.stop) (some e)).reporting [.endsInsideFrame path scan.stop]
    else ⟨.error e, cursor.keep scan, [.damagedFrame path scan.stop e]⟩

end Cursor
end ParameterLog
