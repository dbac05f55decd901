/-
Module: ParameterLog.Proofs.FrameCodec
Purpose: scanning the bytes of frames gives the frames back, wherever the bytes end.
Main exports: Frame.Fits, Frame.bytesOf, Frame.Torn, Frame.next_append, Frame.next_torn,
  Frame.scan_shown, Frame.whole, Frame.whole_length, Frame.bytesOf_take
-/
import ParameterLog.Frame

/-!
A frame fits if its group and its data fit the length fields. The bytes of frames that fit, with
anything behind them, scan to the frames and whatever the rest scans to. A tail that is torn, that
is a proper beginning of some frame's bytes, scans to no frames: it is a clean end if it is empty
and a frame cut off otherwise. As any number of first bytes of a row of frames are some whole frames
and a torn tail (`bytesOf_take`), this says what every reader of a growing log sees.
-/

namespace ParameterLog.Frame

/-- The lengths of the group and the data fit their fields. -/
def Fits (frame : Frame) : Prop :=
  frame.group.length ≤ greatestField ∧ frame.data.length ≤ greatestField

instance (frame : Frame) : Decidable frame.Fits := inferInstanceAs (Decidable (_ ∧ _))

/-- The bytes of frames one after the other. -/
def bytesOf (frames : List Frame) : Bytes := frames.flatMap toBytes

@[simp] theorem bytesOf_nil : bytesOf [] = [] := rfl

@[simp] theorem bytesOf_cons (frame : Frame) (rest : List Frame) :
    bytesOf (frame :: rest) = frame.toBytes ++ bytesOf rest := by
  simp [bytesOf]

@[simp] theorem bytesOf_append (xs ys : List Frame) :
    bytesOf (xs ++ ys) = bytesOf xs ++ bytesOf ys := by
  simp [bytesOf]

@[simp] theorem length_toBytes (frame : Frame) : frame.toBytes.length = frame.size := by
  simp only [toBytes, size, frameFixedSize, List.length_cons, List.length_append,
    Bytes.length_littleEndian]
  omega

theorem size_pos (frame : Frame) : 0 < frame.size := by
  simp only [size, frameFixedSize]
  omega

theorem bytesOf_eq_nil {frames : List Frame} (h : (bytesOf frames).length = 0) : frames = [] := by
  cases frames with
  | nil => rfl
  | cons frame rest =>
    have := frame.size_pos
    simp only [bytesOf_cons, List.length_append, length_toBytes] at h
    omega

theorem encode_eq_ok {frame : Frame} (h : frame.Fits) : frame.encode = .ok frame.toBytes := by
  have hgroup : ¬ greatestField < frame.group.length := Nat.not_lt.mpr h.1
  have hdata : ¬ greatestField < frame.data.length := Nat.not_lt.mpr h.2
  simp [encode, hgroup, hdata]

/-- Frames that fit can be written, and what is written are their bytes. -/
theorem encodeAll_eq_ok {frames : List Frame} (h : ∀ frame ∈ frames, frame.Fits) :
    encodeAll frames = .ok (bytesOf frames) := by
  have hmapM : frames.mapM encode = .ok (frames.map toBytes) := by
    induction frames with
    | nil => rfl
    | cons frame rest ih =>
      have hfirst := encode_eq_ok (h frame List.mem_cons_self)
      have hrest := ih fun f hf => h f (List.mem_cons_of_mem _ hf)
      rw [List.mapM_cons, hfirst, hrest]
      rfl
  simp [encodeAll, hmapM, Except.map, bytesOf, List.flatMap]

/-- What cannot be written has a frame that does not fit. -/
theorem fits_of_encodeAll {frames : List Frame} {bytes : Bytes}
    (h : encodeAll frames = .ok bytes) : ∀ frame ∈ frames, frame.Fits := by
  induction frames generalizing bytes with
  | nil => simp
  | cons frame rest ih =>
    simp only [encodeAll, List.mapM_cons] at h
    cases hfirst : frame.encode with
    | error e =>
      rw [hfirst] at h
      simp [bind, Except.bind, Except.map] at h
    | ok first =>
      cases hrest : rest.mapM encode with
      | error e =>
        rw [hfirst, hrest] at h
        simp [bind, Except.bind, Except.map] at h
      | ok more =>
        have hfits : frame.Fits := by
          simp only [encode] at hfirst
          split at hfirst
          · simp at hfirst
          · split at hfirst
            · simp at hfirst
            · constructor <;> omega
        have htail : encodeAll rest = .ok more.flatten := by
          simp [encodeAll, hrest, Except.map]
        intro f hf
        rcases List.mem_cons.mp hf with rfl | hf
        · exact hfits
        · exact ih htail f hf

/-! ### One frame -/

theorem field_littleEndian {n : Nat} (h : n ≤ greatestField) :
    Bytes.ofLittleEndian (Bytes.littleEndian 2 n) = n := by
  rw [Bytes.ofLittleEndian_littleEndian]
  simp only [Bytes.wordCount, greatestField] at *
  omega

theorem word_littleEndian (w : UInt16) :
    UInt16.ofNat (Bytes.ofLittleEndian (Bytes.littleEndian 2 w.toNat)) = w := by
  have hw := w.toNat_lt
  rw [field_littleEndian (by simp only [greatestField]; omega)]
  exact UInt16.ofNat_toNat

/-- A little-endian word of two bytes, byte by byte. -/
theorem littleEndian_two (n : Nat) :
    Bytes.littleEndian 2 n = [UInt8.ofNat n, UInt8.ofNat (n / 256)] := rfl

/-- The fields of a frame that fits are read off its bytes, whatever follows. -/
theorem next_append {frame : Frame} (h : frame.Fits) (offset : Nat) (rest : Bytes) :
    next offset (frame.toBytes ++ rest) = .frame frame rest := by
  have hgroup := field_littleEndian h.1
  have hdata := field_littleEndian h.2
  have htotal := word_littleEndian frame.total
  have hindex := word_littleEndian frame.index
  rw [littleEndian_two] at hgroup hdata htotal hindex
  have hfront : Bytes.splitExactly? frame.group.length
      (frame.group ++ (UInt8.ofNat frame.data.length :: UInt8.ofNat (frame.data.length / 256) ::
        (frame.data ++ rest))) = some (frame.group, _) :=
    Bytes.splitExactly?_append _ _
  have hback : Bytes.splitExactly? frame.data.length (frame.data ++ rest) =
      some (frame.data, rest) :=
    Bytes.splitExactly?_append _ _
  simp only [toBytes, littleEndian_two, List.cons_append, List.nil_append, List.append_assoc, next,
    ne_eq, not_true_eq_false, if_false, fields?, hgroup, hfront, hdata, hback, htotal, hindex]

/-- More bytes do not change a frame that has been read. -/
theorem fields?_append {input rest : Bytes} {frame : Frame}
    (h : fields? input = some (frame, rest)) (more : Bytes) :
    fields? (input ++ more) = some (frame, rest ++ more) := by
  unfold fields? at h
  split at h
  · next t0 t1 i0 i1 g0 g1 tail =>
    split at h
    · next group d0 d1 body hgroup =>
      obtain ⟨rfl, hlength⟩ := Bytes.splitExactly?_eq_some hgroup
      split at h
      · next data remainder hdata =>
        obtain ⟨rfl, hlength'⟩ := Bytes.splitExactly?_eq_some hdata
        simp only [Option.some.injEq, Prod.mk.injEq] at h
        obtain ⟨rfl, rfl⟩ := h
        have hfront := Bytes.splitExactly?_append group (d0 :: d1 :: (data ++ (remainder ++ more)))
        have hback := Bytes.splitExactly?_append data (remainder ++ more)
        rw [hlength] at hfront
        rw [hlength'] at hback
        simp only [fields?, List.cons_append, List.append_assoc, hfront, hback]
      · simp at h
    · simp at h
  · simp at h

/-- A proper beginning of the bytes of a frame, perhaps nothing at all. -/
def Torn (tail : Bytes) : Prop :=
  ∃ frame : Frame, frame.Fits ∧ tail <+: frame.toBytes ∧ tail.length < frame.size

theorem torn_nil : Torn [] :=
  ⟨⟨0, 0, [], []⟩, by decide, List.nil_prefix, size_pos _⟩

/-- Reading stops at a torn tail: cleanly if it is empty, inside a frame if it is not. -/
theorem next_torn {tail : Bytes} (h : Torn tail) (offset : Nat) :
    next offset tail = if tail = [] then .finished else .failed (.truncatedFrame offset) := by
  obtain ⟨frame, hfits, ⟨missing, hmissing⟩, hshort⟩ := h
  cases tail with
  | nil => rfl
  | cons version body =>
    have hwhole := next_append hfits offset []
    rw [List.append_nil, ← hmissing] at hwhole
    have hversion : version = frameVersion := by
      have := congrArg List.head? hmissing
      simpa [toBytes] using this
    have hfields : fields? body = none := by
      rcases hread : fields? body with _ | ⟨read, rest⟩
      · rfl
      · -- What the shorter string holds, the whole one would hold with bytes to spare.
        have hmore := fields?_append hread missing
        simp only [List.cons_append, next, hversion, ne_eq, not_true_eq_false, if_false,
          hmore] at hwhole
        simp only [Next.frame.injEq, List.append_eq_nil_iff] at hwhole
        obtain ⟨rfl, rfl, rfl⟩ := hwhole
        have := fields?_length hread
        simp only [List.length_cons, List.length_nil] at this hshort
        omega
    simp [next, hversion, hfields]

/-! ### Rows of frames -/

theorem scanFrom_frame {offset : Nat} {input rest : Bytes} {frame : Frame} (done : List Frame)
    (h : next offset input = .frame frame rest) :
    scanFrom offset input done = scanFrom (offset + frame.size) rest (frame :: done) := by
  rw [scanFrom]
  split
  · next h' => simp [h] at h'
  · next h' => simp [h] at h'
  · next h' =>
    rw [h] at h'
    simp only [Next.frame.injEq] at h'
    obtain ⟨rfl, rfl⟩ := h'
    rfl

/-- Scanning bytes that start with frames gives the frames and goes on behind them. -/
theorem scanFrom_bytesOf_append {frames : List Frame} (h : ∀ frame ∈ frames, frame.Fits)
    (offset : Nat) (rest : Bytes) (done : List Frame) :
    scanFrom offset (bytesOf frames ++ rest) done =
      scanFrom (offset + (bytesOf frames).length) rest (frames.reverse ++ done) := by
  induction frames generalizing offset done with
  | nil => simp
  | cons frame more ih =>
    have hnext := next_append (h frame List.mem_cons_self) offset (bytesOf more ++ rest)
    rw [bytesOf_cons, List.append_assoc, scanFrom_frame done hnext,
      ih fun f hf => h f (List.mem_cons_of_mem _ hf)]
    simp [Nat.add_assoc]

/-- What a scan finds in frames followed by a torn tail. -/
theorem scan_shown {frames : List Frame} (h : ∀ frame ∈ frames, frame.Fits) {tail : Bytes}
    (htail : Torn tail) (offset : Nat) :
    scan offset (bytesOf frames ++ tail) =
      ⟨frames, offset + (bytesOf frames).length,
        if tail = [] then none
        else some (.truncatedFrame (offset + (bytesOf frames).length))⟩ := by
  have hnext := next_torn htail (offset + (bytesOf frames).length)
  rw [scan, scanFrom_bytesOf_append h, scanFrom]
  by_cases hempty : tail = []
  · simp only [hempty, if_true] at hnext ⊢
    split <;> simp_all
  · simp only [hempty, if_false] at hnext ⊢
    split <;> simp_all

/-- The frames of a row that lie wholly within a number of bytes. -/
def whole : Nat → List Frame → List Frame
  | _, [] => []
  | count, frame :: rest =>
    if frame.size ≤ count then frame :: whole (count - frame.size) rest else []

theorem whole_initial (count : Nat) (frames : List Frame) : whole count frames <+: frames := by
  induction frames generalizing count with
  | nil => simp [whole]
  | cons frame rest ih =>
    simp only [whole]
    split
    · exact List.cons_prefix_cons.mpr ⟨rfl, ih _⟩
    · exact List.nil_prefix

/-- More bytes hold at least the frames that fewer bytes hold. -/
theorem whole_mono {few many : Nat} (h : few ≤ many) (frames : List Frame) :
    whole few frames <+: whole many frames := by
  induction frames generalizing few many with
  | nil => simp [whole]
  | cons frame rest ih =>
    simp only [whole]
    by_cases hfew : frame.size ≤ few
    · rw [if_pos hfew, if_pos (Nat.le_trans hfew h)]
      exact List.cons_prefix_cons.mpr ⟨rfl, ih (by omega)⟩
    · rw [if_neg hfew]
      exact List.nil_prefix

theorem whole_append {xs : List Frame} {count : Nat} (h : (bytesOf xs).length ≤ count)
    (ys : List Frame) : whole count (xs ++ ys) = xs ++ whole (count - (bytesOf xs).length) ys := by
  induction xs generalizing count with
  | nil => simp
  | cons frame rest ih =>
    simp only [bytesOf_cons, List.length_append, length_toBytes] at h
    have hfirst : frame.size ≤ count := by omega
    have hrest := ih (show (bytesOf rest).length ≤ count - frame.size by omega)
    simp only [List.cons_append, whole, hfirst, if_true, hrest, bytesOf_cons, List.length_append,
      length_toBytes, Nat.sub_sub]

theorem whole_append_prefix (count : Nat) (xs ys : List Frame) :
    whole count xs <+: whole count (xs ++ ys) := by
  induction xs generalizing count with
  | nil => exact List.nil_prefix
  | cons frame rest ih =>
    simp only [List.cons_append, whole]
    split
    · exact List.cons_prefix_cons.mpr ⟨rfl, ih _⟩
    · exact List.prefix_rfl

theorem whole_zero (frames : List Frame) : whole 0 frames = [] := by
  cases frames with
  | nil => rfl
  | cons frame rest => simp [whole, Nat.not_le.mpr frame.size_pos]

/-- The bytes of frames hold these frames, whatever frames follow. -/
theorem whole_length (xs ys : List Frame) : whole (bytesOf xs).length (xs ++ ys) = xs := by
  rw [whole_append (Nat.le_refl _), Nat.sub_self, whole_zero, List.append_nil]

theorem length_whole_le (count : Nat) (frames : List Frame) :
    (bytesOf (whole count frames)).length ≤ count := by
  induction frames generalizing count with
  | nil => simp [whole]
  | cons frame rest ih =>
    simp only [whole]
    split
    · have := ih (count - frame.size)
      simp only [bytesOf_cons, List.length_append, length_toBytes]
      omega
    · simp

/-- The frame behind those that lie wholly within a number of bytes does not. -/
theorem whole_maximal {count : Nat} {frames front more : List Frame} {frame : Frame}
    (hframes : frames = front ++ frame :: more) (hfront : front = whole count frames) :
    count < (bytesOf front).length + frame.size := by
  subst hframes
  apply Nat.not_le.mp
  intro hle
  have hlonger : whole count (front ++ [frame] ++ more) = front ++ [frame] ++ _ :=
    whole_append (by simpa using hle) more
  rw [List.append_assoc, List.singleton_append, ← hfront] at hlonger
  have hlength := congrArg List.length hlonger
  simp only [List.length_append, List.length_cons, List.length_nil] at hlength
  omega

/-- The first bytes of a row of frames are some whole frames and a torn tail. -/
theorem bytesOf_take {frames : List Frame} (h : ∀ frame ∈ frames, frame.Fits) (count : Nat) :
    ∃ tail, Torn tail ∧ (bytesOf frames).take count = bytesOf (whole count frames) ++ tail := by
  induction frames generalizing count with
  | nil => exact ⟨[], torn_nil, by simp [whole]⟩
  | cons frame rest ih =>
    by_cases hwhole : frame.size ≤ count
    · obtain ⟨tail, htorn, heq⟩ := ih (fun f hf => h f (List.mem_cons_of_mem _ hf))
        (count - frame.size)
      refine ⟨tail, htorn, ?_⟩
      rw [bytesOf_cons, List.take_append, List.take_of_length_le (by simpa using hwhole)]
      simp [whole, hwhole, heq]
    · have hcount : count < frame.size := Nat.not_le.mp hwhole
      refine ⟨frame.toBytes.take count,
        ⟨frame, h frame List.mem_cons_self, List.take_prefix _ _, ?_⟩, ?_⟩
      · simp only [List.length_take, length_toBytes]
        omega
      · rw [bytesOf_cons, List.take_append_of_le_length (by simp; omega)]
        simp [whole, hwhole]

end ParameterLog.Frame
