/-
Module: ParameterLog.Frame
Purpose: the physical frames of a log, and how entries are cut into them.
Main exports: Frame, Frame.capacity, Frame.encode, Frame.next, Frame.scan, Entry.frames
-/
import ParameterLog.Bytes.Pieces
import ParameterLog.Entry

/-!
A log is a row of frames without header or end mark. A frame carries one piece of the binary form of
an entry. It names the entry by a grouping identifier that is made up for the writing of that entry,
and says how many frames the entry has and which of them it is:

    version (1 byte) | frames (2) | index (2) | length of the group (2) | group
      | length of the data (2) | data

with all numbers little-endian. Reading stops cleanly only in front of a frame: if not even the
version byte is there. Any other end of the bytes leaves a frame cut off.
-/

namespace ParameterLog

/-- The version in which frames are written. -/
def frameVersion : UInt8 := 1

/-- The length of the identifiers that are made up: of parameters, of groups and of stores. -/
def freshIdLength : Nat := 16

/-- The bytes of a frame besides its group and its data. -/
def frameFixedSize : Nat := 9

/-- The bytes of a frame besides its data, with a made-up group. -/
def frameHeaderSize : Nat := frameFixedSize + freshIdLength

/-- The greatest number that a field of a frame can hold. -/
def greatestField : Nat := 65535

/-- The frame size when none is asked for. -/
def defaultFrameSize : Nat := 64

/-- A fragment of the binary form of an entry. -/
structure Frame where
  /-- How many frames the entry has. -/
  total : UInt16
  /-- Which of them this is, counted from zero. -/
  index : UInt16
  /-- The identifier that the frames of the entry share. -/
  group : Bytes
  data : Bytes
deriving Repr, DecidableEq, Inhabited

namespace Frame

/-- How many bytes of an entry a frame of a size carries. -/
def capacity (frameSize : Nat) : Except StoreError Nat :=
  if frameSize < leastFrameSize ∨ greatestFrameSize < frameSize then
    .error (.invalidConfig (.frameSize frameSize))
  else .ok (frameSize - frameHeaderSize)

/-- The size of the binary form. -/
def size (frame : Frame) : Nat := frameFixedSize + frame.group.length + frame.data.length

/-- The binary form of a frame; the lengths are meant to fit their fields. -/
def toBytes (frame : Frame) : Bytes :=
  frameVersion ::
    (Bytes.littleEndian 2 frame.total.toNat ++ Bytes.littleEndian 2 frame.index.toNat ++
      Bytes.littleEndian 2 frame.group.length ++ frame.group ++
      Bytes.littleEndian 2 frame.data.length ++ frame.data)

/-- The binary form of a frame whose lengths fit their fields. -/
def encode (frame : Frame) : Except StoreError Bytes :=
  if greatestField < frame.group.length then .error (.malformedRecord .frameIdTooLong)
  else if greatestField < frame.data.length then .error (.malformedRecord .frameDataTooLong)
  else .ok frame.toBytes

/-- The binary forms of frames one after the other. -/
def encodeAll (frames : List Frame) : Except StoreError Bytes :=
  (frames.mapM encode).map List.flatten

/-- What a byte string starts with. -/
inductive Next where
  /-- Nothing: the bytes have ended in front of a frame. -/
  | finished
  /-- A frame and the bytes after it. -/
  | frame (frame : Frame) (rest : Bytes)
  /-- Something that is no whole frame. -/
  | failed (error : StoreError)
deriving Repr, DecidableEq

/-- The fields of a frame after its version byte and the bytes that follow, if they are all
there. -/
def fields? (input : Bytes) : Option (Frame × Bytes) :=
  match input with
  | t0 :: t1 :: i0 :: i1 :: g0 :: g1 :: rest =>
    match Bytes.splitExactly? (Bytes.ofLittleEndian [g0, g1]) rest with
    | some (group, d0 :: d1 :: rest) =>
      match Bytes.splitExactly? (Bytes.ofLittleEndian [d0, d1]) rest with
      | some (data, rest) =>
        some (⟨UInt16.ofNat (Bytes.ofLittleEndian [t0, t1]),
          UInt16.ofNat (Bytes.ofLittleEndian [i0, i1]), group, data⟩, rest)
      | none => none
    | _ => none
  | _ => none

/-- Reads a frame off the front of bytes that start at an offset of the log. -/
def next (offset : Nat) (input : Bytes) : Next :=
  match input with
  | [] => .finished
  | version :: rest =>
    if version ≠ frameVersion then
      .failed (.unsupportedVersion "frame" version.toNat frameVersion.toNat)
    else
      match fields? rest with
      | some (frame, rest) => .frame frame rest
      | none => .failed (.truncatedFrame offset)

theorem fields?_length {input rest : Bytes} {frame : Frame}
    (h : fields? input = some (frame, rest)) :
    input.length + 1 = frame.size + rest.length := by
  unfold fields? at h
  split at h
  · next t0 t1 i0 i1 g0 g1 tail =>
    split at h
    · next group d0 d1 more hgroup =>
      obtain ⟨rfl, -⟩ := Bytes.splitExactly?_eq_some hgroup
      split at h
      · next data remainder hdata =>
        obtain ⟨rfl, -⟩ := Bytes.splitExactly?_eq_some hdata
        simp only [Option.some.injEq, Prod.mk.injEq] at h
        obtain ⟨rfl, rfl⟩ := h
        simp only [size, frameFixedSize, List.length_cons, List.length_append]
        omega
      · simp at h
    · simp at h
  · simp at h

/-- A frame takes its size off the bytes. -/
theorem next_length {offset : Nat} {input rest : Bytes} {frame : Frame}
    (h : next offset input = .frame frame rest) : input.length = frame.size + rest.length := by
  unfold next at h
  split at h
  · simp at h
  · next version tail =>
    split at h
    · simp at h
    · split at h
      · next read remainder hfields =>
        simp only [Next.frame.injEq] at h
        obtain ⟨rfl, rfl⟩ := h
        have := fields?_length hfields
        simp only [List.length_cons]
        omega
      · simp at h

/-- The frames at the front of a byte string and what ended them. -/
structure Scan where
  frames : List Frame
  /-- The offset behind the last frame. -/
  stop : Nat
  /-- Why the scan ended, if not at the end of the bytes. -/
  failure : Option StoreError
deriving Repr, DecidableEq

/-- Goes on with a scan at an offset; `done` holds the frames found so far, last one first. -/
def scanFrom (offset : Nat) (input : Bytes) (done : List Frame) : Scan :=
  match _h : next offset input with
  | .finished => ⟨done.reverse, offset, none⟩
  | .failed e => ⟨done.reverse, offset, some e⟩
  | .frame frame rest => scanFrom (offset + frame.size) rest (frame :: done)
termination_by input.length
decreasing_by
  have := next_length _h
  simp only [size, frameFixedSize] at this
  omega

/-- Reads frames off bytes that start at an offset of the log, as many as there are. -/
def scan (offset : Nat) (input : Bytes) : Scan := scanFrom offset input []

end Frame

/-- Cuts an entry into frames of at most `frameSize` bytes that share the group. -/
def Entry.frames (entry : Entry) (group : Bytes) (frameSize : Nat) :
    Except StoreError (List Frame) :=
  match Frame.capacity frameSize with
  | .error e => .error e
  | .ok capacity =>
    match entry.encode with
    | .error e => .error e
    | .ok bytes =>
      let pieces := bytes.pieces capacity
      let total := pieces.length
      if greatestField < total then .error (.recordTooLarge bytes.length (capacity * greatestField))
      else
        .ok <| pieces.mapIdx fun index data =>
          ⟨UInt16.ofNat total, UInt16.ofNat index, group, data⟩

end ParameterLog
