/-
Module: ParameterLog.Frame.Delivery
Purpose: reading frames from bytes that arrive in pieces.
Main exports: Delivery, Frame.receive, Frame.receiveAll
-/
import ParameterLog.Frame

/-!
A file hands its bytes over in pieces of its own choosing, and a read can be interrupted or fail.
An interruption means nothing and the read is tried again; a failure ends the reading. What frames
are found does not depend on where the pieces are cut.
-/

namespace ParameterLog

/-- One answer of a file to a read. -/
inductive Delivery where
  | bytes (piece : Bytes)
  | interrupted
  | failed (message : String)
deriving Repr, DecidableEq

namespace Delivery

/-- All the bytes that will arrive. -/
def content : List Delivery → Bytes
  | [] => []
  | .bytes piece :: rest => piece ++ content rest
  | _ :: rest => content rest

/-- The first byte that arrives and what arrives after it, or nothing at the end. -/
def first : List Delivery → Except StoreError (Option (UInt8 × List Delivery))
  | [] => .ok none
  | .interrupted :: rest => first rest
  | .failed message :: _ => .error (.io message)
  | .bytes [] :: rest => first rest
  | .bytes (byte :: piece) :: rest => .ok (some (byte, .bytes piece :: rest))

/-- The first `n` bytes that arrive and what arrives after them; nothing when fewer arrive. -/
def exactly : Nat → List Delivery → Except StoreError (Option (Bytes × List Delivery))
  | 0, source => .ok (some ([], source))
  | _ + 1, [] => .ok none
  | n + 1, .interrupted :: rest => exactly (n + 1) rest
  | _ + 1, .failed message :: _ => .error (.io message)
  | n + 1, .bytes piece :: rest =>
    if n + 1 ≤ piece.length then
      .ok (some (piece.take (n + 1), .bytes (piece.drop (n + 1)) :: rest))
    else
      match exactly (n + 1 - piece.length) rest with
      | .ok (some (more, rest)) => .ok (some (piece ++ more, rest))
      | .ok none => .ok none
      | .error e => .error e

/-- A little-endian word of two bytes. -/
def word (source : List Delivery) : Except StoreError (Option (Nat × List Delivery)) :=
  match exactly 2 source with
  | .ok (some (front, rest)) => .ok (some (Bytes.ofLittleEndian front, rest))
  | .ok none => .ok none
  | .error e => .error e

/-- A byte string behind a word that tells its length. -/
def counted (source : List Delivery) : Except StoreError (Option (Bytes × List Delivery)) :=
  match word source with
  | .ok (some (length, rest)) => exactly length rest
  | .ok none => .ok none
  | .error e => .error e

end Delivery

namespace Frame

/-- What arrives first. -/
inductive Received where
  | finished
  | frame (frame : Frame) (rest : List Delivery)
  | failed (error : StoreError)
deriving Repr, DecidableEq

/-- The fields of a frame after its version byte, if they all arrive. -/
def receiveFields (source : List Delivery) :
    Except StoreError (Option (Frame × List Delivery)) := do
  let some (total, source) ← Delivery.word source | return none
  let some (index, source) ← Delivery.word source | return none
  let some (group, source) ← Delivery.counted source | return none
  let some (data, source) ← Delivery.counted source | return none
  return some (⟨UInt16.ofNat total, UInt16.ofNat index, group, data⟩, source)

/-- Reads the next frame that arrives, which starts at an offset of the log. -/
def receive (offset : Nat) (source : List Delivery) : Received :=
  match Delivery.first source with
  | .error e => .failed e
  | .ok none => .finished
  | .ok (some (version, rest)) =>
    if version ≠ frameVersion then
      .failed (.unsupportedVersion "frame" version.toNat frameVersion.toNat)
    else
      match receiveFields rest with
      | .error e => .failed e
      | .ok none => .failed (.truncatedFrame offset)
      | .ok (some (frame, rest)) => .frame frame rest

/-- Reads frames as long as they arrive, at most `rounds` of them. -/
def receiveFrom : Nat → Nat → List Delivery → List Frame → Scan
  | 0, offset, _, done => ⟨done.reverse, offset, none⟩
  | rounds + 1, offset, source, done =>
    match receive offset source with
    | .finished => ⟨done.reverse, offset, none⟩
    | .failed e => ⟨done.reverse, offset, some e⟩
    | .frame frame rest => receiveFrom rounds (offset + frame.size) rest (frame :: done)

/-- Reads frames as long as they arrive; each takes at least one byte of what arrives. -/
def receiveAll (offset : Nat) (source : List Delivery) : Scan :=
  receiveFrom ((Delivery.content source).length + 1) offset source []

end Frame
end ParameterLog
