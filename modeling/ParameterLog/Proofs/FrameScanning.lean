/-
Module: ParameterLog.Proofs.FrameScanning
Purpose: what any bytes scan to.
Main exports: Frame.next_eq_frame_iff, Frame.next_eq_failed, Frame.Scan.behind, Frame.scan_append,
  Frame.Ends, Frame.exists_scanned
-/
import ParameterLog.Proofs.FrameCodec

/-!
A frame is read off bytes that start with the bytes of the frame and off no others
(`next_eq_frame_iff`). So any bytes at all are the bytes of the frames that a scan finds and a rest
that does not start with a frame (`exists_scanned`), and a scan of frames and a rest is a scan of
the rest behind the frames (`scan_append`).
-/

namespace ParameterLog.Frame

/-! ### One frame -/

/-- Two bytes are the word that they spell. -/
theorem littleEndian_word (low high : UInt8) :
    Bytes.littleEndian 2 (UInt16.ofNat (Bytes.ofLittleEndian [low, high])).toNat = [low, high] := by
  have hlt : Bytes.ofLittleEndian [low, high] < 2 ^ 16 := Bytes.ofLittleEndian_lt [low, high]
  rw [UInt16.toNat_ofNat', Nat.mod_eq_of_lt hlt]
  exact Bytes.littleEndian_ofLittleEndian [low, high]

theorem field_le (low high : UInt8) : Bytes.ofLittleEndian [low, high] ≤ greatestField :=
  Nat.le_of_lt_succ (Bytes.ofLittleEndian_lt [low, high])

/-- Fields that have been read are the bytes of a frame behind its version byte. -/
theorem fields?_eq_some {input rest : Bytes} {frame : Frame}
    (h : fields? input = some (frame, rest)) :
    frame.Fits ∧ frameVersion :: input = frame.toBytes ++ rest := by
  unfold fields? at h
  split at h
  · next t0 t1 i0 i1 g0 g1 tail =>
    split at h
    · next group d0 d1 more hgroup =>
      obtain ⟨rfl, hgroupLength⟩ := Bytes.splitExactly?_eq_some hgroup
      split at h
      · next data remainder hdata =>
        obtain ⟨rfl, hdataLength⟩ := Bytes.splitExactly?_eq_some hdata
        simp only [Option.some.injEq, Prod.mk.injEq] at h
        obtain ⟨rfl, rfl⟩ := h
        refine ⟨⟨hgroupLength ▸ field_le g0 g1, hdataLength ▸ field_le d0 d1⟩, ?_⟩
        have hgroupField := Bytes.littleEndian_ofLittleEndian [g0, g1]
        have hdataField := Bytes.littleEndian_ofLittleEndian [d0, d1]
        simp only [List.length_cons, List.length_nil, Nat.zero_add, Nat.reduceAdd]
          at hgroupField hdataField
        simp only [toBytes, littleEndian_word, hgroupLength, hdataLength, hgroupField, hdataField,
          List.cons_append, List.nil_append, List.append_assoc]
      · simp at h
    · simp at h
  · simp at h

/-- A frame is read off the bytes that start with its own, and off no others. -/
theorem next_eq_frame_iff {offset : Nat} {input rest : Bytes} {frame : Frame} :
    next offset input = .frame frame rest ↔ frame.Fits ∧ input = frame.toBytes ++ rest := by
  constructor
  · intro h
    unfold next at h
    split at h
    · simp at h
    · next version tail =>
      split at h
      · simp at h
      · next hversion =>
        split at h
        · next read remainder hfields =>
          simp only [Next.frame.injEq] at h
          obtain ⟨rfl, rfl⟩ := h
          rw [Decidable.not_not.mp hversion]
          exact fields?_eq_some hfields
        · simp at h
  · rintro ⟨hfits, rfl⟩
    exact next_append hfits offset rest

/-- Reading fails at bytes of another version, or inside a frame. -/
theorem next_eq_failed {offset : Nat} {input : Bytes} {e : StoreError}
    (h : next offset input = .failed e) :
    (∃ found rest, input = found :: rest ∧ found ≠ frameVersion ∧
        e = .unsupportedVersion "frame" found.toNat frameVersion.toNat) ∨
      e = .truncatedFrame offset := by
  unfold next at h
  split at h
  · simp at h
  · next version tail =>
    split at h
    · next hversion =>
      simp only [Next.failed.injEq] at h
      exact .inl ⟨version, tail, rfl, hversion, h.symm⟩
    · split at h
      · simp at h
      · simp only [Next.failed.injEq] at h
        exact .inr h.symm

/-! ### Rows of frames -/

/-- A scan that has found frames before. -/
def Scan.behind (scan : Scan) (frames : List Frame) : Scan :=
  { scan with frames := frames ++ scan.frames }

/-- Why a scan ends in front of bytes. -/
def Ends (offset : Nat) (rest : Bytes) (failure : Option StoreError) : Prop :=
  match next offset rest with
  | .finished => failure = none
  | .failed e => failure = some e
  | .frame _ _ => False

/-- The frames found before a scan come before those that it finds. -/
theorem scanFrom_eq_behind (offset : Nat) (input : Bytes) (done : List Frame) :
    scanFrom offset input done = (scan offset input).behind done.reverse := by
  induction hlength : input.length using Nat.strongRecOn generalizing offset input done with
  | ind n ih =>
    cases hnext : next offset input with
    | finished =>
      rw [scan, scanFrom, scanFrom]
      split <;> simp_all [Scan.behind]
    | failed e =>
      rw [scan, scanFrom, scanFrom]
      split <;> simp_all [Scan.behind]
    | frame frame rest =>
      have hsize := next_length hnext
      have hpos := frame.size_pos
      have hshorter : rest.length < n := by omega
      rw [scan, scanFrom_frame done hnext, scanFrom_frame [] hnext, ih _ hshorter _ _ _ rfl,
        ih _ hshorter _ _ [frame] rfl]
      simp [Scan.behind]

/-- A scan of frames and a rest is a scan of the rest behind the frames. -/
theorem scan_append {frames : List Frame} (h : ∀ frame ∈ frames, frame.Fits) (offset : Nat)
    (rest : Bytes) :
    scan offset (bytesOf frames ++ rest) =
      (scan (offset + (bytesOf frames).length) rest).behind frames := by
  rw [scan, scanFrom_bytesOf_append h, scanFrom_eq_behind]
  simp

/-- Where bytes do not start with a frame, a scan finds none. -/
theorem scan_of_ends {offset : Nat} {rest : Bytes} {failure : Option StoreError}
    (h : Ends offset rest failure) : scan offset rest = ⟨[], offset, failure⟩ := by
  rw [scan, scanFrom]
  unfold Ends at h
  split <;> simp_all

/-- Any bytes are those of the frames that a scan finds and a rest that starts with no frame. -/
theorem exists_scanned (offset : Nat) (input : Bytes) :
    ∃ rest, input = bytesOf (scan offset input).frames ++ rest ∧
      (∀ frame ∈ (scan offset input).frames, frame.Fits) ∧
      (scan offset input).stop = offset + (bytesOf (scan offset input).frames).length ∧
      Ends (scan offset input).stop rest (scan offset input).failure := by
  -- On the length of the bytes: a frame takes at least its version byte off them.
  induction hlength : input.length using Nat.strongRecOn generalizing offset input with
  | ind n ih =>
    cases hnext : next offset input with
    | finished =>
      have hends : Ends offset input none := by simp [Ends, hnext]
      rw [scan_of_ends hends]
      exact ⟨input, rfl, by simp, rfl, hends⟩
    | failed e =>
      have hends : Ends offset input (some e) := by simp [Ends, hnext]
      rw [scan_of_ends hends]
      exact ⟨input, rfl, by simp, rfl, hends⟩
    | frame frame rest =>
      obtain ⟨hfits, rfl⟩ := next_eq_frame_iff.mp hnext
      have hpos := frame.size_pos
      have hshorter : rest.length < n := by
        rw [← hlength, List.length_append, length_toBytes]
        omega
      obtain ⟨more, hmore, hall, hstop, hends⟩ := ih _ hshorter (offset + frame.size) rest rfl
      have hfirst : ∀ f ∈ [frame], f.Fits := by simpa using hfits
      have hone := scan_append hfirst offset rest
      simp only [bytesOf_cons, bytesOf_nil, List.append_nil, length_toBytes] at hone
      rw [hone]
      refine ⟨more, ?_, ?_, ?_, hends⟩
      · simp only [Scan.behind, List.singleton_append, bytesOf_cons, List.append_assoc]
        rw [← hmore]
      · intro f hf
        rcases List.mem_cons.mp hf with rfl | hf
        · exact hfits
        · exact hall f hf
      · simp only [Scan.behind, List.singleton_append, bytesOf_cons, List.length_append,
          length_toBytes, hstop]
        omega

end ParameterLog.Frame
