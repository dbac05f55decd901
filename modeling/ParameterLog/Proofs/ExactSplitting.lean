/-
Module: ParameterLog.Proofs.ExactSplitting
Purpose: which entries can be cut into frames of a size, and what frames they are cut into.
Main exports: Bytes.length_pieces, Frame.CutUp, Frame.cutUp_numbered, Entry.cut_exactly
-/
import Mathlib.Algebra.Order.Floor.Div
import ParameterLog.Proofs.GroupVerdict

/-!
The pieces of a byte string are full but for the last one, which is not empty, so there are as many
as the division of the length by the size of a piece gives, rounded up (`length_pieces`). An entry
can be cut just if the frame size is allowed and the entry is within the size limit; the pieces are
then so few that their count and their numbers fit the fields of a frame, and the check on the count
is never what refuses an entry (`cut_exactly`).
-/

namespace ParameterLog

namespace Bytes

variable {size : Nat}

/-- There are as many pieces as full ones would be needed. -/
theorem length_pieces (hsize : 0 < size) (bytes : Bytes) :
    (pieces size bytes).length = bytes.length ⌈/⌉ size := by
  induction bytes using pieces_induction hsize with
  | nil => simp
  | piece bytes hne ih =>
    have hpos := List.length_pos_iff.mpr hne
    rw [pieces_of_ne_nil hsize hne, List.length_cons, ih, List.length_drop]
    refine eq_of_forall_ge_iff fun count => ?_
    cases count with
    | zero =>
      rw [ceilDiv_le_iff_le_mul hsize]
      omega
    | succ count =>
      rw [Nat.succ_le_succ_iff, ceilDiv_le_iff_le_mul hsize, ceilDiv_le_iff_le_mul hsize,
        Nat.mul_succ]
      omega

theorem ne_nil_of_mem_pieces (hsize : 0 < size) {bytes piece : Bytes}
    (h : piece ∈ pieces size bytes) : piece ≠ [] := by
  induction bytes using pieces_induction hsize with
  | nil => simp at h
  | piece bytes hne ih =>
    rw [pieces_of_ne_nil hsize hne] at h
    rcases List.mem_cons.mp h with rfl | h
    · simp [hne, Nat.ne_of_gt hsize]
    · exact ih h

/-- All pieces but the last are full. -/
theorem length_of_mem_dropLast_pieces (hsize : 0 < size) {bytes piece : Bytes}
    (h : piece ∈ (pieces size bytes).dropLast) : piece.length = size := by
  induction bytes using pieces_induction hsize with
  | nil => simp at h
  | piece bytes hne ih =>
    rw [pieces_of_ne_nil hsize hne] at h
    by_cases hrest : bytes.drop size = []
    · simp [hrest] at h
    · rw [List.dropLast_cons_of_ne_nil (pieces_ne_nil hsize hrest)] at h
      rcases List.mem_cons.mp h with rfl | h
      · rw [List.drop_eq_nil_iff] at hrest
        exact List.length_take_of_le (by omega)
      · exact ih h

end Bytes

namespace Frame

/-- The frames of a size that a binary form is cut into under a group. -/
structure CutUp (bytes group : Bytes) (frameSize : Nat) (frames : List Frame) : Prop where
  count : frames.length = bytes.length ⌈/⌉ (frameSize - frameHeaderSize)
  bounded : 1 ≤ frames.length ∧ frames.length ≤ greatestField
  total : ∀ frame ∈ frames, frame.total.toNat = frames.length
  index : frames.map (·.index.toNat) = List.range frames.length
  group : ∀ frame ∈ frames, frame.group = group
  full : ∀ frame ∈ frames.dropLast, frame.data.length = frameSize - frameHeaderSize
  last : ∀ frame ∈ frames.getLast?,
    1 ≤ frame.data.length ∧ frame.data.length ≤ frameSize - frameHeaderSize
  written : ∀ frame ∈ frames, ∃ written, frame.encode = .ok written ∧ written.length ≤ frameSize
  data : frames.flatMap (·.data) = bytes

/-- The sizes that frames may have, and the bytes of an entry that a frame of the size holds. -/
theorem capacity_eq_ok_iff {frameSize capacity : Nat} :
    Frame.capacity frameSize = .ok capacity ↔
      (leastFrameSize ≤ frameSize ∧ frameSize ≤ greatestFrameSize) ∧
        capacity = frameSize - frameHeaderSize := by
  simp only [Frame.capacity]
  split
  · next hrefused =>
    simp only [reduceCtorEq, false_iff]
    omega
  · next hallowed =>
    simp only [Except.ok.injEq, eq_comm (b := capacity)]
    omega

/-- The pieces of a binary form that is within the size limit, as frames. -/
theorem cutUp_numbered {bytes group : Bytes} {frameSize : Nat} (hne : bytes ≠ [])
    (hlimit : bytes.length ≤ greatestField) (hgroup : group.length = freshIdLength)
    (hleast : leastFrameSize ≤ frameSize) (hgreatest : frameSize ≤ greatestFrameSize) :
    CutUp bytes group frameSize
      (numbered group (bytes.pieces (frameSize - frameHeaderSize)).length
        (bytes.pieces (frameSize - frameHeaderSize))) := by
  obtain ⟨hpos, hfield⟩ := capacity_eq_ok (capacity_eq_ok_iff.mpr ⟨⟨hleast, hgreatest⟩, rfl⟩)
  generalize hcapacity : frameSize - frameHeaderSize = capacity at hpos hfield
  have hfew : (bytes.pieces capacity).length ≤ greatestField :=
    Nat.le_trans (Bytes.length_pieces_le hpos bytes) hlimit
  have hdata := map_data_numbered group (bytes.pieces capacity).length (bytes.pieces capacity)
  have hpiece : ∀ frame ∈ numbered group (bytes.pieces capacity).length (bytes.pieces capacity),
      frame.data ∈ bytes.pieces capacity := by
    intro frame hframe
    have hmem := List.mem_map_of_mem (f := Frame.data) hframe
    rwa [hdata] at hmem
  constructor
  case count => rw [length_numbered, Bytes.length_pieces hpos, hcapacity]
  case bounded =>
    rw [length_numbered]
    exact ⟨List.length_pos_iff.mpr (Bytes.pieces_ne_nil hpos hne), hfew⟩
  case total =>
    intro frame hframe
    rw [length_numbered]
    exact total_of_mem_numbered hfew hframe
  case index =>
    rw [length_numbered]
    exact map_index_numbered group _ hfew
  case group => exact fun frame => group_of_mem_numbered
  case full =>
    intro frame hframe
    have hmem := List.mem_map_of_mem (f := Frame.data) hframe
    rw [List.map_dropLast, hdata] at hmem
    rw [hcapacity]
    exact Bytes.length_of_mem_dropLast_pieces hpos hmem
  case last =>
    intro frame hframe
    have hmem := hpiece frame (List.mem_of_mem_getLast? hframe)
    rw [hcapacity]
    exact ⟨List.length_pos_iff.mpr (Bytes.ne_nil_of_mem_pieces hpos hmem),
      Bytes.length_le_of_mem_pieces hpos hmem⟩
  case written =>
    intro frame hframe
    have hsize := Bytes.length_le_of_mem_pieces hpos (hpiece frame hframe)
    have hsame := group_of_mem_numbered hframe
    have hfits : frame.Fits := by
      refine ⟨?_, Nat.le_trans hsize hfield⟩
      rw [hsame, hgroup]
      decide
    refine ⟨frame.toBytes, encode_eq_ok hfits, ?_⟩
    rw [length_toBytes, size, hsame, hgroup]
    simp only [frameHeaderSize, leastFrameSize, frameFixedSize, freshIdLength] at *
    omega
  case data => rw [flatMap_data_numbered, Bytes.flatten_pieces hpos]

end Frame

namespace Entry

open ParameterLog.Frame (CutUp)

/-- Cutting an entry into frames is exact at every size. It succeeds just if the frame size is
allowed and the entry is within the size limit, and what refuses an entry is the frame size or else
the encoding of the entry, never the number of frames. When it succeeds, the frames are as many as
their capacity asks for, rounded up, and at least one; each tells how many they are and which of
them it is, and has the group; all but the last are full and the last is not empty; each is written
in no more bytes than the frame size; and their data are the binary form of the entry. -/
theorem cut_exactly (entry : Entry) {group : Bytes} (hgroup : group.length = freshIdLength)
    (frameSize : Nat) :
    ((∃ frames, entry.frames group frameSize = .ok frames) ↔
      (leastFrameSize ≤ frameSize ∧ frameSize ≤ greatestFrameSize) ∧
        entry.size ≤ greatestEntrySize) ∧
    (∀ e, entry.frames group frameSize = .error e →
      Frame.capacity frameSize = .error e ∨
        (leastFrameSize ≤ frameSize ∧ frameSize ≤ greatestFrameSize) ∧ entry.encode = .error e) ∧
    ∀ frames, entry.frames group frameSize = .ok frames →
      ∃ bytes, entry.encode = .ok bytes ∧ bytes.length = entry.size ∧
        CutUp bytes group frameSize frames := by
  refine ⟨⟨?_, ?_⟩, ?_, ?_⟩
  · rintro ⟨frames, hframes⟩
    obtain ⟨hsize, capacity, hcapacity, -⟩ := frames_eq_numbered hframes
    exact ⟨(Frame.capacity_eq_ok_iff.mp hcapacity).1, hsize⟩
  · rintro ⟨hallowed, hsize⟩
    exact ⟨_, frames_eq_ok group hsize (Frame.capacity_eq_ok_iff.mpr ⟨hallowed, rfl⟩)⟩
  · intro e herror
    cases hcapacity : Frame.capacity frameSize with
    | error refused =>
      left
      simp only [frames, hcapacity, Except.error.injEq] at herror
      rw [herror]
    | ok capacity =>
      right
      refine ⟨(Frame.capacity_eq_ok_iff.mp hcapacity).1, ?_⟩
      cases hencode : entry.encode with
      | error refused =>
        simp only [frames, hcapacity, hencode, Except.error.injEq] at herror
        rw [herror]
      | ok bytes =>
        rw [frames_eq_ok group (size_of_encode hencode).1 hcapacity] at herror
        exact absurd herror (by simp)
  · intro frames hframes
    obtain ⟨hsize, capacity, hcapacity, rfl⟩ := frames_eq_numbered hframes
    obtain ⟨⟨hleast, hgreatest⟩, rfl⟩ := Frame.capacity_eq_ok_iff.mp hcapacity
    have hlimit : entry.toBytes.length ≤ greatestField := by
      rw [length_toBytes]
      exact hsize
    exact ⟨entry.toBytes, encode_eq_ok hsize, length_toBytes entry,
      Frame.cutUp_numbered entry.toBytes_ne_nil hlimit hgroup hleast hgreatest⟩

/-- An entry of nine bytes. -/
def nine : Entry := ⟨.parameters, [1, 2], [3, 4, 5]⟩

theorem cut_exactly_nine :
    (List.replicate 16 (0 : UInt8)).length = freshIdLength ∧
      ((∃ frames, nine.frames (List.replicate 16 0) 27 = .ok frames) ↔
        (26 ≤ 27 ∧ 27 ≤ 65560) ∧ nine.size ≤ 65535) ∧
      ∃ frames bytes, nine.frames (List.replicate 16 0) 27 = .ok frames ∧
        nine.encode = .ok bytes ∧ frames.length = 5 ∧
        CutUp bytes (List.replicate 16 0) 27 frames := by
  have hgroup : (List.replicate 16 (0 : UInt8)).length = freshIdLength := by decide
  obtain ⟨hsucceeds, -, hcut⟩ := cut_exactly nine hgroup 27
  obtain ⟨frames, hframes⟩ := hsucceeds.mpr (by decide)
  obtain ⟨bytes, hencode, hbytes, hcutUp⟩ := hcut frames hframes
  have hcount := hcutUp.count
  rw [hbytes] at hcount
  exact ⟨hgroup, hsucceeds, frames, bytes, hframes, hencode, hcount, hcutUp⟩

end Entry
end ParameterLog
