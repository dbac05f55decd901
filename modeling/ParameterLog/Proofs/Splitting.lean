/-
Module: ParameterLog.Proofs.Splitting
Purpose: what cutting an entry into frames gives.
Main exports: Frame.numbered, Frame.map_data_numbered, Frame.map_index_numbered,
  Entry.frames_eq_ok, Entry.frames_eq_numbered, Frame.IsStart
-/
import ParameterLog.Proofs.EntryCodec
import ParameterLog.Proofs.FrameCodec

/-!
An entry is cut into pieces and each piece becomes a frame of the group, numbered in the order of
the pieces (`numbered`). Cutting works for every frame size that is allowed and every entry within
the size limit: the count of the frames never stands in the way.

The start of an entry (`IsStart`) is a row of numbered frames that stops before or after its last
frame. It is what a program leaves that appends an entry and may not come to its end; the data need
not be that of any entry.
-/

namespace ParameterLog

namespace Bytes

theorem length_le_of_mem_pieces {size : Nat} (hsize : 0 < size) {bytes piece : Bytes}
    (h : piece ∈ pieces size bytes) : piece.length ≤ size := by
  induction bytes using pieces_induction hsize with
  | nil => simp at h
  | piece bytes hne ih =>
    rw [pieces_of_ne_nil hsize hne, List.mem_cons] at h
    rcases h with rfl | h
    · exact List.length_take_le _ _
    · exact ih h

/-- There are no more pieces than bytes. -/
theorem length_pieces_le {size : Nat} (hsize : 0 < size) (bytes : Bytes) :
    (pieces size bytes).length ≤ bytes.length := by
  induction bytes using pieces_induction hsize with
  | nil => simp
  | piece bytes hne ih =>
    have hpos := List.length_pos_iff.mpr hne
    rw [pieces_of_ne_nil hsize hne, List.length_cons]
    rw [List.length_drop] at ih
    omega

theorem pieces_ne_nil {size : Nat} (hsize : 0 < size) {bytes : Bytes} (h : bytes ≠ []) :
    pieces size bytes ≠ [] := by
  simp [pieces_of_ne_nil hsize h]

end Bytes

namespace Frame

/-- Pieces as frames of a group of `total` frames, numbered in the order of the pieces. -/
def numbered (group : Bytes) (total : Nat) (pieces : List Bytes) : List Frame :=
  pieces.mapIdx fun index data => ⟨UInt16.ofNat total, UInt16.ofNat index, group, data⟩

@[simp] theorem length_numbered (group : Bytes) (total : Nat) (pieces : List Bytes) :
    (numbered group total pieces).length = pieces.length := by
  simp [numbered]

theorem group_of_mem_numbered {group : Bytes} {total : Nat} {pieces : List Bytes} {frame : Frame}
    (h : frame ∈ numbered group total pieces) : frame.group = group := by
  obtain ⟨index, hindex, rfl⟩ := List.mem_mapIdx.mp h
  rfl

theorem map_data_numbered (group : Bytes) (total : Nat) (pieces : List Bytes) :
    (numbered group total pieces).map (·.data) = pieces := by
  apply List.ext_getElem (by simp)
  intro i hi hi'
  simp [numbered]

theorem map_index_numbered (group : Bytes) (total : Nat) {pieces : List Bytes}
    (h : pieces.length ≤ greatestField) :
    (numbered group total pieces).map (·.index.toNat) = List.range pieces.length := by
  apply List.ext_getElem (by simp)
  intro i hi hi'
  simp only [List.getElem_map, numbered, List.getElem_mapIdx, UInt16.toNat_ofNat',
    List.getElem_range]
  simp only [List.length_range, greatestField] at *
  omega

theorem capacity_eq_ok {frameSize capacity : Nat} (h : Frame.capacity frameSize = .ok capacity) :
    0 < capacity ∧ capacity ≤ greatestField := by
  simp only [Frame.capacity] at h
  split at h
  · simp at h
  · simp only [Except.ok.injEq, leastFrameSize, greatestFrameSize, frameHeaderSize, frameFixedSize,
      freshIdLength, greatestField] at *
    omega

end Frame

namespace Entry

open ParameterLog.Frame (numbered)

/-- An entry within the size limit can be cut for every frame size that is allowed. -/
theorem frames_eq_ok {entry : Entry} {frameSize capacity : Nat} (group : Bytes)
    (hsize : entry.size ≤ greatestEntrySize) (h : Frame.capacity frameSize = .ok capacity) :
    entry.frames group frameSize =
      .ok (numbered group (entry.toBytes.pieces capacity).length
        (entry.toBytes.pieces capacity)) := by
  have hcount := Bytes.length_pieces_le (Frame.capacity_eq_ok h).1 entry.toBytes
  rw [length_toBytes] at hcount
  have hfits : ¬ greatestField < (entry.toBytes.pieces capacity).length := by
    simp only [greatestField, greatestEntrySize] at *
    omega
  simp [frames, h, encode_eq_ok hsize, hfits, numbered]

/-- What an entry that was cut into frames is made of. -/
theorem frames_eq_numbered {entry : Entry} {frameSize : Nat} {group : Bytes} {frames : List Frame}
    (h : entry.frames group frameSize = .ok frames) :
    entry.size ≤ greatestEntrySize ∧ ∃ capacity, Frame.capacity frameSize = .ok capacity ∧
      frames = numbered group (entry.toBytes.pieces capacity).length
        (entry.toBytes.pieces capacity) := by
  have hopen := h
  simp only [Entry.frames] at hopen
  split at hopen
  · simp at hopen
  · next capacity hcapacity =>
    split at hopen
    · simp at hopen
    · next bytes hencode =>
      have hsize := (size_of_encode hencode).1
      rw [frames_eq_ok group hsize hcapacity] at h
      simp only [Except.ok.injEq] at h
      exact ⟨hsize, capacity, hcapacity, h.symm⟩

end Entry

namespace Frame

/-- The first frames of an entry under a group: numbered from zero and not more than are
announced. -/
def IsStart (group : Bytes) (frames : List Frame) : Prop :=
  ∃ total pieces, 0 < total ∧ total ≤ greatestField ∧ pieces.length ≤ total ∧
    frames = numbered group total pieces

theorem IsStart.group_eq {group : Bytes} {frames : List Frame} (h : IsStart group frames) :
    ∀ frame ∈ frames, frame.group = group := by
  obtain ⟨total, pieces, -, -, -, rfl⟩ := h
  exact fun _ => group_of_mem_numbered

end Frame
end ParameterLog
