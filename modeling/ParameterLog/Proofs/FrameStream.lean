/-
Module: ParameterLog.Proofs.FrameStream
Purpose: what a reader makes of the first bytes of a row of frames, and of any bytes.
Main exports: Frame.startOf, Frame.Boundary, Frame.ScansFirst, Frame.scansFirst_take,
  Frame.parsed_exactly
-/
import Mathlib.Algebra.GroupWithZero.Nat
import ParameterLog.Proofs.FrameScanning

/-!
The frames of a row start where the sizes of those before them add up to (`startOf`), and these
places, with the end of the row, are the boundaries between frames. A reader that is given any
number of first bytes of the row finds the frames that end within them, no more and no fewer, and
stops in front of the next one: cleanly if the bytes end at a boundary, at a frame cut off if they
do not (`scansFirst_take`). In the other direction a frame that is read off any bytes at all has the
bytes that were taken as its binary form, so that no frame has two (`parsed_exactly`).
-/

namespace ParameterLog.Frame

/-- Where the frame of an index starts in a row; for the number of frames, where the row ends. -/
def startOf (frames : List Frame) (index : Nat) : Nat := ((frames.take index).map size).sum

/-- A number of bytes after which a frame of a row starts or the row ends. -/
def Boundary (frames : List Frame) (count : Nat) : Prop :=
  ∃ index ≤ frames.length, startOf frames index = count

/-- A scan that starts at an offset finds what lies within a number of first bytes of a row. -/
structure ScansFirst (frames : List Frame) (offset count : Nat) (scan : Scan) : Prop where
  initial : scan.frames <+: frames
  /-- A frame is found just if it ends within the bytes. -/
  wholly : ∀ index < frames.length,
    index < scan.frames.length ↔ startOf frames (index + 1) ≤ count
  /-- The scan stops at the start of the first frame that it does not find. -/
  stop : scan.stop = offset + startOf frames scan.frames.length
  clean : Boundary frames count → scan.failure = none
  cut : ¬ Boundary frames count → scan.failure = some (.truncatedFrame scan.stop)

@[simp] theorem startOf_zero (frames : List Frame) : startOf frames 0 = 0 := rfl

@[simp] theorem startOf_cons_succ (frame : Frame) (rest : List Frame) (index : Nat) :
    startOf (frame :: rest) (index + 1) = frame.size + startOf rest index := by
  simp [startOf]

theorem length_bytesOf_take (frames : List Frame) (index : Nat) :
    (bytesOf (frames.take index)).length = startOf frames index := by
  simp [bytesOf, startOf, List.length_flatMap]

/-- A frame lies among those wholly within a number of bytes just if it ends within them. -/
theorem lt_length_whole_iff {count index : Nat} {frames : List Frame} (h : index < frames.length) :
    index < (whole count frames).length ↔ startOf frames (index + 1) ≤ count := by
  induction frames generalizing count index with
  | nil => simp at h
  | cons frame rest ih =>
    rw [whole, startOf_cons_succ]
    by_cases hfirst : frame.size ≤ count
    · rw [if_pos hfirst, List.length_cons]
      cases index with
      | zero => simp [hfirst]
      | succ index =>
        have hrest : index < (whole (count - frame.size) rest).length ↔
            startOf rest (index + 1) ≤ count - frame.size := ih (Nat.lt_of_succ_lt_succ h)
        omega
    · rw [if_neg hfirst, List.length_nil]
      omega

/-- The bytes wholly taken by frames are all the bytes just at a boundary. -/
theorem boundary_iff {frames : List Frame} {count : Nat} :
    Boundary frames count ↔ (bytesOf (whole count frames)).length = count := by
  constructor
  · rintro ⟨index, -, rfl⟩
    have hwhole := whole_length (frames.take index) (frames.drop index)
    rw [List.take_append_drop, length_bytesOf_take] at hwhole
    rw [hwhole, length_bytesOf_take]
  · intro h
    have hinitial := whole_initial count frames
    refine ⟨(whole count frames).length, hinitial.length_le, ?_⟩
    rw [← length_bytesOf_take, ← List.prefix_iff_eq_take.mp hinitial, h]

/-- Any number of first bytes of a row is read as the frames that end within them, up to a clean end
at a boundary and up to a frame cut off elsewhere. -/
theorem scansFirst_take {frames : List Frame} (hfits : ∀ frame ∈ frames, frame.Fits) {count : Nat}
    (hcount : count ≤ (bytesOf frames).length) (offset : Nat) :
    ScansFirst frames offset count (scan offset ((bytesOf frames).take count)) := by
  obtain ⟨tail, htorn, hbytes⟩ := bytesOf_take hfits count
  have hinitial := whole_initial count frames
  have hwholeFits : ∀ frame ∈ whole count frames, frame.Fits :=
    fun frame hframe => hfits frame (hinitial.subset hframe)
  have hstart : (bytesOf (whole count frames)).length =
      startOf frames (whole count frames).length := by
    rw [← length_bytesOf_take, ← List.prefix_iff_eq_take.mp hinitial]
  have hempty : Boundary frames count ↔ tail = [] := by
    have hlength := congrArg List.length hbytes
    rw [List.length_take_of_le hcount, List.length_append] at hlength
    rw [boundary_iff, ← List.length_eq_zero_iff]
    omega
  rw [hbytes, scan_shown hwholeFits htorn]
  refine ⟨hinitial, fun index hindex => lt_length_whole_iff hindex, ?_, ?_, ?_⟩
  · rw [hstart]
  · intro hboundary
    exact if_pos (hempty.mp hboundary)
  · intro hinside
    exact if_neg (mt hempty.mpr hinside)

/-- Frames are parsed exactly. Of any number of first bytes of what frames are written as, all of
them if the number is greater, a reader finds the frames that lie wholly within them and then a
clean end at a boundary between frames, and elsewhere a frame cut off at the offset where that frame
starts. Conversely, a frame that is read off any bytes is written as the bytes that it was read off,
which are as many as its size. -/
theorem parsed_exactly :
    (∀ frames : List Frame, (∀ frame ∈ frames, frame.Fits) →
      ∃ bytes, encodeAll frames = .ok bytes ∧ ∀ offset count,
        ScansFirst frames offset (min count bytes.length) (scan offset (bytes.take count))) ∧
    ∀ offset input frame rest, next offset input = .frame frame rest →
      ∃ consumed, frame.encode = .ok consumed ∧ consumed.length = frame.size ∧
        input = consumed ++ rest := by
  constructor
  · intro frames hfits
    refine ⟨bytesOf frames, encodeAll_eq_ok hfits, fun offset count => ?_⟩
    rw [List.take_eq_take_min]
    exact scansFirst_take hfits (Nat.min_le_right _ _) offset
  · intro offset input frame rest hnext
    obtain ⟨hfits, hinput⟩ := next_eq_frame_iff.mp hnext
    exact ⟨frame.toBytes, encode_eq_ok hfits, length_toBytes frame, hinput⟩

/-- Two frames of an entry, the second one without data. -/
def couple : List Frame := [⟨2, 0, [7], [1, 1]⟩, ⟨2, 1, [7], []⟩]

theorem parsed_exactly_couple :
    (∀ frame ∈ couple, frame.Fits) ∧
      (∃ bytes, encodeAll couple = .ok bytes ∧
        ScansFirst couple 5 (min 21 bytes.length) (scan 5 (bytes.take 21))) ∧
      next 5 [1, 2, 0, 1, 0, 1, 0, 7, 0, 0, 9] = .frame ⟨2, 1, [7], []⟩ [9] ∧
      ∃ consumed, Frame.encode ⟨2, 1, [7], []⟩ = .ok consumed ∧
        consumed.length = Frame.size ⟨2, 1, [7], []⟩ ∧
        [1, 2, 0, 1, 0, 1, 0, 7, 0, 0, 9] = consumed ++ [9] := by
  have hfits : ∀ frame ∈ couple, frame.Fits := by decide
  have hnext : next 5 [1, 2, 0, 1, 0, 1, 0, 7, 0, 0, 9] = .frame ⟨2, 1, [7], []⟩ [9] := by decide
  obtain ⟨bytes, hbytes, hscans⟩ := parsed_exactly.1 couple hfits
  exact ⟨hfits, ⟨bytes, hbytes, hscans 5 21⟩, hnext, parsed_exactly.2 _ _ _ _ hnext⟩

end ParameterLog.Frame
