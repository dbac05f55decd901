/-
Module: ParameterLog.Proofs.AbandonedWrites
Purpose: what a writer that stopped part way does to the entries around its own.
Main exports: cutContent, Log.GivesOut, Writing.Between, wedge, Frame.scan_wedge,
  gives_out_of_between, gives_out_of_last, gives_out_after_cut_iff, later_entry_hidden
-/
import Mathlib.Tactic.IntervalCases
import ParameterLog.Proofs.Writings

/-!
A writer may stop after any number of bytes. If that is between two of its frames (`Between`), or if
nothing is written afterwards, a reader finds all other entries. Inside a frame it is different:
what is written next is taken for the rest of that frame, and there is no mark by which a reader
would find back into step. For each such cut there is an entry that is lost when it is written next:
the `wedge`, whose bytes fit behind no part of a frame.
-/

namespace ParameterLog

open ParameterLog.Frame (bytesOf groupIds)

/-- The content of a log after writings, the first bytes of one that stopped, and more writings. -/
def cutContent (earlier : List Writing) (a : Writing) (count : Nat) (later : List Writing) :
    Bytes :=
  writeAll later (writeAll earlier [] ++ a.bytes.take count)

/-- The first read of a log with the content succeeds and gives out the entries. -/
def Log.GivesOut (content : Bytes) (entries : List Entry) : Prop :=
  ∀ path frameSize writable, ∃ truncated,
    ((opened path frameSize writable).read content).result = .ok ⟨entries, truncated⟩

/-- The entries that were written: the one that stopped only if it came to its end. -/
def wholeEntries (earlier : List Writing) (a : Writing) (count : Nat) (later : List Writing) :
    List Entry :=
  earlier.map (·.entry) ++ (if count = a.bytes.length then [a.entry] else []) ++
    later.map (·.entry)

/-- A number of bytes that ends in front of a frame or behind the last one. -/
def Writing.Between (a : Writing) (count : Nat) : Prop :=
  ∃ frames, count = (bytesOf (a.row.take frames)).length

/-! ### Cuts that do no harm -/

namespace Writing.Succeeds

variable {a : Writing}

/-- The first frames of an entry hold it if they are all. -/
theorem found_front (h : a.Succeeds) {front back : List Frame} (hrow : a.row = front ++ back) :
    Assembly.found front = if back = [] then [(a.group, a.entry)] else [] := by
  by_cases hback : back = []
  · rw [if_pos hback]
    subst hback
    rw [List.append_nil] at hrow
    rw [← hrow]
    exact Assembly.found_frames h.frames_eq
  · rw [if_neg hback]
    have hstart := h.isStart
    rw [hrow] at hstart
    exact Assembly.found_of_cut hstart hback

/-- The entries in the first frames of a writing, among others under different groups. -/
theorem found_among (h : a.Succeeds) {earlier later : List Writing} {front back : List Frame}
    (hrow : a.row = front ++ back) (hearlier : ∀ w ∈ earlier, w.Succeeds)
    (hlater : ∀ w ∈ later, w.Succeeds)
    (hdistinct : ((earlier ++ a :: later).map (·.group)).Nodup) :
    (Assembly.found (rowsOf earlier ++ front ++ rowsOf later)).map (·.2) =
      earlier.map (·.entry) ++ (if back = [] then [a.entry] else []) ++ later.map (·.entry) := by
  rw [List.map_append, List.map_cons, List.nodup_append, List.nodup_cons] at hdistinct
  obtain ⟨hfirst, ⟨hown, hlast⟩, hacross⟩ := hdistinct
  have hfront : ∀ id ∈ groupIds front, id = a.group := by
    intro id hid
    obtain ⟨frame, hframe, rfl⟩ := Frame.mem_groupIds.mp hid
    exact h.isStart.group_eq frame (by rw [hrow]; exact List.mem_append_left _ hframe)
  have hbefore : ∀ id ∈ groupIds front, id ∉ groupIds (rowsOf earlier) := by
    intro id hid hmem
    exact hacross _ (groupIds_rowsOf hearlier hmem) _ List.mem_cons_self (hfront id hid)
  have hafter : ∀ id ∈ groupIds (rowsOf later), id ∉ groupIds (rowsOf earlier ++ front) := by
    intro id hid hmem
    have hgroup := groupIds_rowsOf hlater hid
    obtain ⟨frame, hframe, rfl⟩ := Frame.mem_groupIds.mp hmem
    rcases List.mem_append.mp hframe with hframe | hframe
    · have hmem := groupIds_rowsOf hearlier (Frame.mem_groupIds.mpr ⟨frame, hframe, rfl⟩)
      exact hacross _ hmem _ (List.mem_cons_of_mem _ hgroup) rfl
    · have hsame := hfront _ (Frame.mem_groupIds.mpr ⟨frame, hframe, rfl⟩)
      exact hown (hsame ▸ hgroup)
  rw [Assembly.found_append_of_disjoint hafter, Assembly.found_append_of_disjoint hbefore,
    Assembly.found_rows hearlier hfirst, Assembly.found_rows hlater hlast, h.found_front hrow]
  by_cases hback : back = [] <;> simp [hback, Function.comp_def]

end Writing.Succeeds

theorem length_front_iff {a : Writing} {front back : List Frame} (hrow : a.row = front ++ back) :
    (bytesOf front).length = a.bytes.length ↔ back = [] := by
  have hlength : a.bytes.length = (bytesOf front).length + (bytesOf back).length := by
    rw [Writing.bytes, hrow, Frame.bytesOf_append, List.length_append]
  constructor
  · intro h
    exact Frame.bytesOf_eq_nil (by omega)
  · rintro rfl
    simpa using hlength.symm

/-- Bytes that show frames give out the entries found in them. -/
theorem Log.givesOut_of_shows {content : Bytes} {frames : List Frame}
    (h : Frame.Shows content frames) : GivesOut content ((Assembly.found frames).map (·.2)) :=
  fun path frameSize writable => read_opened h path frameSize writable

variable {earlier later : List Writing} {a : Writing} {count : Nat}

/-- A writer that stops between frames hides nothing. -/
theorem gives_out_of_between (ha : a.Succeeds) (hearlier : ∀ w ∈ earlier, w.Succeeds)
    (hlater : ∀ w ∈ later, w.Succeeds)
    (hdistinct : ((earlier ++ a :: later).map (·.group)).Nodup) (hbetween : a.Between count) :
    Log.GivesOut (cutContent earlier a count later) (wholeEntries earlier a count later) := by
  obtain ⟨frames, rfl⟩ := hbetween
  have hrow : a.row = a.row.take frames ++ a.row.drop frames := (List.take_append_drop ..).symm
  have htake : a.bytes.take (bytesOf (a.row.take frames)).length = bytesOf (a.row.take frames) := by
    have hbytes : a.bytes = bytesOf (a.row.take frames) ++ bytesOf (a.row.drop frames) := by
      rw [← Frame.bytesOf_append, List.take_append_drop, Writing.bytes]
    rw [hbytes, List.take_left]
  have hcontent : cutContent earlier a (bytesOf (a.row.take frames)).length later =
      bytesOf (rowsOf earlier ++ a.row.take frames ++ rowsOf later) := by
    rw [cutContent, writeAll_eq hlater, writeAll_eq hearlier, htake]
    simp
  have hfits : ∀ frame ∈ rowsOf earlier ++ a.row.take frames ++ rowsOf later, frame.Fits := by
    intro frame hframe
    rcases List.mem_append.mp hframe with hframe | hframe
    · rcases List.mem_append.mp hframe with hframe | hframe
      · exact fits_rowsOf hearlier frame hframe
      · exact ha.fits frame (List.mem_of_mem_take hframe)
    · exact fits_rowsOf hlater frame hframe
  have hgives := Log.givesOut_of_shows (Frame.shows_bytesOf hfits)
  rw [ha.found_among hrow hearlier hlater hdistinct] at hgives
  rw [hcontent, wholeEntries]
  simpa only [length_front_iff hrow] using hgives

/-- A writer that stops anywhere hides nothing as long as nobody writes after it. -/
theorem gives_out_of_last (ha : a.Succeeds) (hearlier : ∀ w ∈ earlier, w.Succeeds)
    (hdistinct : ((earlier ++ [a]).map (·.group)).Nodup) (hcount : count ≤ a.bytes.length) :
    Log.GivesOut (cutContent earlier a count []) (wholeEntries earlier a count []) := by
  obtain ⟨back, hback⟩ := Frame.whole_initial count a.row
  obtain ⟨tail, htorn, htake⟩ := Frame.bytesOf_take ha.fits count
  have hcontent : cutContent earlier a count [] =
      bytesOf (rowsOf earlier ++ Frame.whole count a.row) ++ tail := by
    rw [cutContent, writeAll_eq (by simp), writeAll_eq hearlier, Writing.bytes, htake]
    simp
  have hfits : ∀ frame ∈ rowsOf earlier ++ Frame.whole count a.row, frame.Fits := by
    intro frame hframe
    rcases List.mem_append.mp hframe with hframe | hframe
    · exact fits_rowsOf hearlier frame hframe
    · exact ha.fits frame ((Frame.whole_initial count a.row).subset hframe)
  have hgives := Log.givesOut_of_shows ⟨hfits, tail, htorn, hcontent⟩
  have hnone : ∀ w ∈ ([] : List Writing), w.Succeeds := by simp
  have hfound := ha.found_among hback.symm hearlier hnone hdistinct
  rw [rowsOf_nil, List.append_nil] at hfound
  have hall : count = a.bytes.length ↔ back = [] := by
    constructor
    · rintro rfl
      have hwhole := Frame.whole_length a.row []
      rw [List.append_nil] at hwhole
      rw [Writing.bytes, hwhole] at hback
      exact List.append_right_eq_self.mp hback
    · rintro rfl
      rw [List.append_nil] at hback
      have hlength := congrArg List.length htake
      rw [hback, List.length_take, List.length_append] at hlength
      have : a.bytes.length = (bytesOf a.row).length := rfl
      omega
  rw [hfound] at hgives
  rw [wholeEntries]
  simpa only [hall] using hgives

/-! ### Cuts inside a frame -/

namespace Frame

/-- No frame stands in front of the bytes. -/
def mute : Bytes → Bool
  | [] => true
  | version :: rest => version != frameVersion || (fields? rest).isNone

/-- Scanning the bytes fails for good, at once or behind one frame. -/
def doomed : Bytes → Bool
  | [] => false
  | version :: rest =>
    version != frameVersion ||
      match fields? rest with
      | some (_, next :: _) => next != frameVersion
      | _ => false

/-- A scan has failed for good. -/
def Scan.Fails (scan : Scan) : Prop := ∃ e, scan.failure = some e ∧ e.retryable = false

variable {input : Bytes} {offset : Nat} {done : List Frame}

theorem scanFrom_of_mute (h : mute input = true) :
    (scanFrom offset input done).frames = done.reverse := by
  cases input with
  | nil =>
    rw [scanFrom]
    rfl
  | cons version rest =>
    have hnext : ∃ e, next offset (version :: rest) = .failed e := by
      simp only [next]
      by_cases hversion : version = frameVersion
      · have hnone : fields? rest = none := by simpa [mute, hversion] using h
        simp [hversion, hnone]
      · simp [hversion]
    obtain ⟨e, hnext⟩ := hnext
    rw [scanFrom]
    split <;> simp_all

theorem scanFrom_of_version {version : UInt8} {rest : Bytes} (h : version ≠ frameVersion) :
    (scanFrom offset (version :: rest) done).Fails := by
  have hnext : next offset (version :: rest) =
      .failed (.unsupportedVersion "frame" version.toNat frameVersion.toNat) := by
    simp [next, h]
  rw [scanFrom]
  split
  · simp_all
  · next e hfailed =>
    rw [hnext] at hfailed
    simp only [Next.failed.injEq] at hfailed
    exact ⟨e, rfl, hfailed ▸ rfl⟩
  · simp_all

theorem scanFrom_of_doomed (h : doomed input = true) : (scanFrom offset input done).Fails := by
  cases input with
  | nil => simp [doomed] at h
  | cons version rest =>
    by_cases hversion : version = frameVersion
    · simp only [doomed, hversion, bne_self_eq_false, Bool.false_or] at h
      split at h
      · next frame following remainder hfields =>
        have hnext : next offset (version :: rest) = .frame frame (following :: remainder) := by
          simp [next, hversion, hfields]
        rw [scanFrom_frame done hnext]
        exact scanFrom_of_version (by simpa using h)
      · simp at h
    · exact scanFrom_of_version hversion

end Frame

/-- A writing of nothing much whose bytes stand in for no part of another frame. -/
def wedge (mark : UInt8) : Writing :=
  ⟨.opened "" 200 true, ⟨.untyped, [], []⟩, [0, 0, 0] ++ List.replicate 13 mark⟩

/-- The bytes of a wedge. -/
def wedgeBytes (mark : UInt8) : Bytes :=
  [1, 1, 0, 0, 0, 16, 0, 0, 0, 0] ++ List.replicate 13 mark ++ [4, 0, 1, 0, 0, 0]

/-- The marks of wedges: there are two, so that one is different from any given group. -/
def marks : List UInt8 := [0xfe, 0xff]

namespace Frame

variable {mark : UInt8}

theorem wedge_succeeds (h : mark ∈ marks) : (wedge mark).Succeeds := by
  have hall : ∀ mark ∈ marks, ((wedge mark).log.write (wedge mark).entry (wedge mark).group
      []).result = .ok () := by
    decide +kernel
  exact hall mark h

theorem bytes_wedge (h : mark ∈ marks) : (wedge mark).bytes = wedgeBytes mark := by
  have hall : ∀ mark ∈ marks, (wedge mark).bytes = wedgeBytes mark := by
    decide +kernel
  exact hall mark h

/-- What is left of a wedge when its first bytes have completed a frame. -/
theorem drop_wedge (h : mark ∈ marks) {taken : Nat} (hpos : 0 < taken) (hbound : taken ≤ 29) :
    doomed ((wedgeBytes mark).drop taken) = true ∨
      25 ≤ taken ∧ mute ((wedgeBytes mark).drop taken) = true := by
  have hall : ∀ mark ∈ marks, ∀ taken < 30, 0 < taken →
      doomed ((wedgeBytes mark).drop taken) = true ∨
        25 ≤ taken ∧ mute ((wedgeBytes mark).drop taken) = true := by
    decide +kernel
  exact hall mark h taken (by omega) hpos

/-- No frame comes of the bytes, or one that is followed by what starts no frame. -/
def Stuck (input : Bytes) : Prop := mute input = true ∨ doomed input = true

/-- A wedge behind the front of a header that ends before the group. -/
theorem stuck_front (h : mark ∈ marks) (t0 t1 i0 i1 : UInt8) :
    Stuck (1 :: wedgeBytes mark) ∧ Stuck (1 :: t0 :: wedgeBytes mark) ∧
      Stuck (1 :: t0 :: t1 :: wedgeBytes mark) ∧ Stuck (1 :: t0 :: t1 :: i0 :: wedgeBytes mark) ∧
      Stuck (1 :: t0 :: t1 :: i0 :: i1 :: wedgeBytes mark) ∧
      Stuck (1 :: t0 :: t1 :: i0 :: i1 :: 16 :: wedgeBytes mark) := by
  simp only [marks, List.mem_cons, List.not_mem_nil, or_false] at h
  rcases h with rfl | rfl
  · exact ⟨.inl rfl, .inr rfl, .inl rfl, .inl rfl, .inl rfl, .inl rfl⟩
  · exact ⟨.inl rfl, .inr rfl, .inl rfl, .inl rfl, .inl rfl, .inl rfl⟩

/-- Bytes that follow the group of a frame make it no frame, or one that is followed by what starts
no frame. -/
def stuckBehindGroup : Bytes → Bool
  | d0 :: d1 :: rest =>
    match Bytes.splitExactly? (Bytes.ofLittleEndian [d0, d1]) rest with
    | none => true
    | some (_, next :: _) => next != frameVersion
    | some (_, []) => false
  | _ => true

theorem stuck_of_behindGroup {group rest : Bytes} (hgroup : group.length = 16)
    (h : stuckBehindGroup rest = true) (t0 t1 i0 i1 : UInt8) :
    Stuck (1 :: t0 :: t1 :: i0 :: i1 :: 16 :: 0 :: (group ++ rest)) := by
  have hword : Bytes.ofLittleEndian [16, 0] = group.length := by
    rw [hgroup]
    rfl
  have hversion : (1 : UInt8) = frameVersion := rfl
  have hsplit : Bytes.splitExactly? (Bytes.ofLittleEndian [16, 0]) (group ++ rest) =
      some (group, rest) := by
    rw [hword]
    exact Bytes.splitExactly?_append group rest
  match rest with
  | [] =>
    refine .inl ?_
    simp only [mute, hversion, bne_self_eq_false, Bool.false_or, fields?, hsplit]
    rfl
  | [d0] =>
    refine .inl ?_
    simp only [mute, hversion, bne_self_eq_false, Bool.false_or, fields?, hsplit]
    rfl
  | d0 :: d1 :: body =>
    simp only [stuckBehindGroup] at h
    cases hbody : Bytes.splitExactly? (Bytes.ofLittleEndian [d0, d1]) body with
    | none =>
      refine .inl ?_
      simp only [mute, hversion, bne_self_eq_false, Bool.false_or, fields?, hsplit, hbody]
      rfl
    | some cut =>
      obtain ⟨data, remainder⟩ := cut
      rw [hbody] at h
      cases remainder with
      | nil => simp at h
      | cons next remainder =>
        refine .inr ?_
        simp only [doomed, hversion, bne_self_eq_false, Bool.false_or, fields?, hsplit, hbody]
        exact h

/-- A wedge that is cut where it has to stand in for the rest of a group. -/
theorem stuck_drop_wedge (h : mark ∈ marks) {taken : Nat} (hbound : taken ≤ 16) :
    stuckBehindGroup ((wedgeBytes mark).drop taken) = true := by
  have hall : ∀ mark ∈ marks, ∀ taken < 17,
      stuckBehindGroup ((wedgeBytes mark).drop taken) = true := by
    decide +kernel
  exact hall mark h taken (by omega)

/-- A wedge behind the first byte of the length of the data stands for data that are not there. -/
theorem stuck_length_wedge (d0 : UInt8) : stuckBehindGroup (d0 :: wedgeBytes mark) = true := by
  have hlong : Bytes.splitExactly? (Bytes.ofLittleEndian [d0, 1]) ((wedgeBytes mark).drop 1) =
      none := by
    rw [Bytes.splitExactly?_eq_none_iff]
    have hword : Bytes.ofLittleEndian [d0, 1] = d0.toNat + 256 := rfl
    have hlength : ((wedgeBytes mark).drop 1).length = 28 := by
      simp [wedgeBytes]
    omega
  have hform : wedgeBytes mark = 1 :: (wedgeBytes mark).drop 1 := rfl
  rw [hform, stuckBehindGroup, hlong]

theorem toBytes_eq {frame : Frame} (hgroup : frame.group.length = 16) :
    ∃ t0 t1 i0 i1 d0 d1, frame.toBytes =
      1 :: t0 :: t1 :: i0 :: i1 :: 16 :: 0 :: (frame.group ++ d0 :: d1 :: frame.data) := by
  simp only [toBytes, littleEndian_two, hgroup, List.cons_append, List.nil_append,
    List.append_assoc]
  exact ⟨_, _, _, _, _, _, rfl⟩

/-- A wedge behind the front of a header. -/
theorem stuck_header (h : mark ∈ marks) {frame : Frame} (hgroup : frame.group.length = 16)
    {count : Nat} (hpos : 0 < count) (hheader : count < 25) :
    Stuck (frame.toBytes.take count ++ wedgeBytes mark) := by
  obtain ⟨t0, t1, i0, i1, d0, d1, hbytes⟩ := toBytes_eq hgroup
  rw [hbytes]
  obtain ⟨h1, h2, h3, h4, h5, h6⟩ := stuck_front h t0 t1 i0 i1
  by_cases hfront : count < 7
  · interval_cases count
    · exact h1
    · exact h2
    · exact h3
    · exact h4
    · exact h5
    · exact h6
  · obtain ⟨more, rfl⟩ : ∃ more, count = more + 7 := ⟨count - 7, by omega⟩
    simp only [List.take_succ_cons, List.cons_append]
    by_cases hwhole : more = 17
    · subst hwhole
      have htake : (frame.group ++ d0 :: d1 :: frame.data).take 17 = frame.group ++ [d0] := by
        rw [List.take_append, hgroup, List.take_of_length_le (by omega)]
        rfl
      rw [htake, List.append_assoc]
      exact stuck_of_behindGroup hgroup (stuck_length_wedge d0) t0 t1 i0 i1
    · -- The wedge gives the group its last bytes.
      have htake : (frame.group ++ d0 :: d1 :: frame.data).take more ++ wedgeBytes mark =
          (frame.group.take more ++ (wedgeBytes mark).take (16 - more)) ++
            (wedgeBytes mark).drop (16 - more) := by
        rw [List.take_append_of_le_length (by omega), List.append_assoc, List.take_append_drop]
      have hlength : (frame.group.take more ++ (wedgeBytes mark).take (16 - more)).length = 16 := by
        simp [wedgeBytes, hgroup]
        omega
      rw [htake]
      exact stuck_of_behindGroup hlength (stuck_drop_wedge h (by omega)) t0 t1 i0 i1

/-- The data of a frame stand behind a header that only their length has a part in. -/
theorem toBytes_of_data (frame : Frame) {data : Bytes} (h : data.length = frame.data.length) :
    ∃ header, header.length = frameFixedSize + frame.group.length ∧
      frame.toBytes = header ++ frame.data ∧
      { frame with data := data }.toBytes = header ++ data := by
  refine ⟨frameVersion :: (Bytes.littleEndian 2 frame.total.toNat ++
    Bytes.littleEndian 2 frame.index.toNat ++ Bytes.littleEndian 2 frame.group.length ++
    frame.group ++ Bytes.littleEndian 2 frame.data.length), ?_, ?_, ?_⟩
  · simp only [List.length_cons, List.length_append, Bytes.length_littleEndian, frameFixedSize]
    omega
  · simp [toBytes]
  · simp [toBytes, h]

variable {front : List Frame} {frame : Frame} {count : Nat}

/-- What stands behind the header of a frame and some of its data is taken for the rest of the data:
it is too short for that, or a frame ends in it. -/
theorem resume_data (hfits : frame.Fits) (hheader : frameFixedSize + frame.group.length ≤ count)
    (hcount : count < frame.size) (more : Bytes) :
    (more.length < frame.size - count ∧ Torn (frame.toBytes.take count ++ more)) ∨
      (frame.size - count ≤ more.length ∧
        ∃ x : Frame, x.Fits ∧ x.group = frame.group ∧ x.data.length = frame.data.length ∧
          frame.toBytes.take count ++ more = x.toBytes ++ more.drop (frame.size - count)) := by
  have hsize : frame.size = frameFixedSize + frame.group.length + frame.data.length := rfl
  obtain ⟨kept, rfl⟩ : ∃ kept, count = frameFixedSize + frame.group.length + kept :=
    ⟨count - (frameFixedSize + frame.group.length), by omega⟩
  obtain ⟨lack, hlack⟩ : ∃ lack, frame.data.length = kept + lack :=
    ⟨frame.data.length - kept, by omega⟩
  have hrest : frame.size - (frameFixedSize + frame.group.length + kept) = lack := by omega
  -- A frame with the data that were kept and others behind them.
  have hread (rest : Bytes) (hlength : rest.length = lack) :
      ∃ x : Frame, x.Fits ∧ x.group = frame.group ∧ x.data.length = frame.data.length ∧
        x.size = frame.size ∧
        x.toBytes = frame.toBytes.take (frameFixedSize + frame.group.length + kept) ++ rest := by
    have hdata : (frame.data.take kept ++ rest).length = frame.data.length := by
      rw [List.length_append, List.length_take]
      omega
    obtain ⟨header, hheaderLength, hbytes, hother⟩ := toBytes_of_data frame hdata
    refine ⟨{ frame with data := frame.data.take kept ++ rest }, ⟨hfits.1, ?_⟩, rfl, hdata, ?_, ?_⟩
    · dsimp only
      rw [hdata]
      exact hfits.2
    · simp only [size, hdata]
    · rw [hother, hbytes, ← hheaderLength, List.take_length_add_append, List.append_assoc]
  rw [hrest]
  by_cases hshort : more.length < lack
  · refine .inl ⟨hshort, ?_⟩
    have hfill : (more ++ List.replicate (lack - more.length) 0).length = lack := by
      rw [List.length_append, List.length_replicate]
      omega
    obtain ⟨x, hxFits, -, -, hxSize, hxBytes⟩ := hread _ hfill
    refine ⟨x, hxFits, ?_, ?_⟩
    · rw [hxBytes, ← List.append_assoc]
      exact List.prefix_append _ _
    · rw [hxSize, List.length_append, List.length_take, length_toBytes]
      omega
  · have hlong : lack ≤ more.length := Nat.not_lt.mp hshort
    have htaken : (more.take lack).length = lack := by
      rw [List.length_take]
      omega
    obtain ⟨x, hxFits, hxGroup, hxData, -, hxBytes⟩ := hread _ htaken
    refine .inr ⟨hlong, x, hxFits, hxGroup, hxData, ?_⟩
    rw [hxBytes, List.append_assoc, List.take_append_drop]

/-- A wedge behind the header of a frame and some of its data: it is too short for the rest of the
data, or the frame ends in it. -/
theorem scan_data_wedge (hfront : ∀ frame ∈ front, frame.Fits) (hfits : frame.Fits)
    (h : mark ∈ marks) (hheader : frameFixedSize + frame.group.length ≤ count)
    (hcount : count < frame.size) :
    let scan := scan 0 (bytesOf front ++ (frame.toBytes.take count ++ wedgeBytes mark))
    scan.Fails ∨ scan.frames = front ∨
      ∃ x, scan.frames = front ++ [x] ∧ x.group = frame.group ∧ 25 ≤ x.data.length := by
  intro scan
  have hwedge : (wedgeBytes mark).length = 29 := by simp [wedgeBytes]
  have hsize : frame.size = frameFixedSize + frame.group.length + frame.data.length := rfl
  rcases resume_data hfits hheader hcount (wedgeBytes mark) with
    ⟨-, htorn⟩ | ⟨hlong, x, hxFits, hxGroup, hxData, hform⟩
  · have hscan : scan = _ := scan_shown hfront htorn 0
    rw [hscan]
    exact .inr (.inl rfl)
  · have hscan : scan = scanFrom (0 + (bytesOf front).length + x.size)
        ((wedgeBytes mark).drop (frame.size - count)) (x :: (front.reverse ++ [])) := by
      have hbehind : scan = _ := scanFrom_bytesOf_append hfront 0 _ []
      rw [hbehind, hform, scanFrom_frame _ (next_append hxFits _ _)]
    have hpos : 0 < frame.size - count := Nat.sub_pos_of_lt hcount
    have hlack : frame.size - count ≤ x.data.length := by omega
    rw [hscan]
    rcases drop_wedge h hpos (hwedge ▸ hlong) with hdoomed | ⟨hmany, hmute⟩
    · exact .inl (scanFrom_of_doomed hdoomed)
    · refine .inr (.inr ⟨x, ?_, hxGroup, hmany.trans hlack⟩)
      rw [scanFrom_of_mute hmute]
      simp

/-- A wedge inside a frame: the scan fails, or it finds nothing more than the frame, with other
data. -/
theorem scan_wedge (hfront : ∀ frame ∈ front, frame.Fits) (hfits : frame.Fits)
    (hgroup : frame.group.length = 16) (h : mark ∈ marks) (hpos : 0 < count)
    (hcount : count < frame.size) :
    let scan := scan 0 (bytesOf front ++ (frame.toBytes.take count ++ wedgeBytes mark))
    scan.Fails ∨ scan.frames = front ∨
      ∃ x, scan.frames = front ++ [x] ∧ x.group = frame.group ∧ 25 ≤ x.data.length := by
  by_cases hheader : count < 25
  · intro scan
    have hscan : scan = _ := scanFrom_bytesOf_append hfront 0 _ []
    rw [hscan]
    rcases stuck_header h hgroup hpos hheader with hmute | hdoomed
    · refine .inr (.inl ?_)
      rw [scanFrom_of_mute hmute]
      simp
    · exact .inl (scanFrom_of_doomed hdoomed)
  · refine scan_data_wedge hfront hfits h ?_ hcount
    simp only [frameFixedSize]
    omega

end Frame

/-- What the first read of a log gives out are the entries in the frames that it shows. -/
theorem Log.eq_of_read_opened {content : Bytes} {path : String} {frameSize : Nat}
    {writable : Bool} {entries : List Entry} {truncated : Option StoreError}
    (h : ((opened path frameSize writable).read content).result = .ok ⟨entries, truncated⟩) :
    ¬ (Frame.scan 0 content).Fails ∧
      entries = (Assembly.found (Frame.scan 0 content).frames).map (·.2) := by
  simp only [read, opened, Cursor.read, Cursor.start, Outcome.mapState, List.drop_zero] at h
  split at h
  · next hnone =>
    simp only [Cursor.take, Except.ok.injEq, Reading.mk.injEq, List.nil_append] at h
    rw [← Assembly.entries_ofFrames]
    refine ⟨?_, h.1.symm⟩
    rintro ⟨e, hsome, -⟩
    simp [hnone] at hsome
  · next e hsome =>
    split at h
    · next hretryable =>
      simp only [Cursor.take, Outcome.reporting, Except.ok.injEq, Reading.mk.injEq,
        List.nil_append] at h
      rw [← Assembly.entries_ofFrames]
      refine ⟨?_, h.1.symm⟩
      rintro ⟨other, hother, hfinal⟩
      rw [hsome, Option.some.injEq] at hother
      rw [hother, hfinal] at hretryable
      simp at hretryable
    · simp at h

/-- A cut that is not between frames lies inside one. -/
theorem Writing.exists_cut_frame (hcount : count ≤ a.bytes.length) (hinside : ¬ a.Between count) :
    ∃ front frame more, a.row = front ++ frame :: more ∧ (bytesOf front).length < count ∧
      count < (bytesOf front).length + frame.size := by
  obtain ⟨back, hback⟩ := Frame.whole_initial count a.row
  obtain ⟨front, hfront⟩ : ∃ front, front = Frame.whole count a.row := ⟨_, rfl⟩
  rw [← hfront] at hback
  have hle : (bytesOf front).length ≤ count := by
    rw [hfront]
    exact Frame.length_whole_le count a.row
  have hmiddle : count ≠ (bytesOf front).length := by
    intro heq
    refine hinside ⟨front.length, ?_⟩
    rw [← hback, List.take_left]
    exact heq
  cases back with
  | nil =>
    rw [List.append_nil] at hback
    have hlength : a.bytes.length = (bytesOf front).length := by rw [Writing.bytes, hback]
    omega
  | cons frame more =>
    have hmaximal := Frame.whole_maximal hback.symm hfront
    exact ⟨front, frame, more, hback.symm, by omega, hmaximal⟩

theorem Writing.take_bytes_of_cut {front more : List Frame} {frame : Frame}
    (hrow : a.row = front ++ frame :: more) (hle : (bytesOf front).length ≤ count)
    (hcut : count ≤ (bytesOf front).length + frame.size) :
    a.bytes.take count =
      bytesOf front ++ frame.toBytes.take (count - (bytesOf front).length) := by
  have hrest : count - (bytesOf front).length ≤ frame.toBytes.length := by
    rw [Frame.length_toBytes]
    omega
  rw [Writing.bytes, hrow, Frame.bytesOf_append, Frame.bytesOf_cons, List.take_append,
    List.take_of_length_le hle, List.take_append_of_le_length hrest]

theorem exists_other_mark (group : Bytes) : ∃ mark ∈ marks, group ≠ (wedge mark).group := by
  by_cases hsame : group = (wedge 0xfe).group
  · refine ⟨0xff, by decide, ?_⟩
    rw [hsame]
    decide
  · exact ⟨0xfe, by decide, hsame⟩

/-- Frames of one group with that much data do not hold the entry of a wedge. -/
theorem not_mem_found_of_long {mark : UInt8} {id group : Bytes} {front : List Frame} {x : Frame}
    (hall : ∀ frame ∈ front ++ [x], frame.group = group) (hdata : 25 ≤ x.data.length) :
    (id, (wedge mark).entry) ∉ Assembly.found (front ++ [x]) := by
  intro hfound
  obtain ⟨frame, hframe, hid⟩ := Frame.mem_groupIds.mp (Assembly.mem_found hfound).1
  have hsize := Assembly.size_of_mem_found hfound
  rw [← hid, hall frame hframe, Frame.ofGroup_eq_self hall] at hsize
  have hsmall : (wedge mark).entry.size = 4 := rfl
  simp only [List.map_append, List.map_cons, List.map_nil, List.sum_append,
    List.sum_cons] at hsize
  omega

/-- If a writer stops inside a frame, there is an entry that is lost when it is written next. -/
theorem later_entry_hidden (ha : a.Succeeds) (hmadeUp : a.group.length = freshIdLength)
    (hcount : count ≤ a.bytes.length) (hinside : ¬ a.Between count) :
    ∃ mark ∈ marks, a.group ≠ (wedge mark).group ∧
      ¬ Log.GivesOut (cutContent [] a count [wedge mark])
        (wholeEntries [] a count [wedge mark]) := by
  obtain ⟨mark, hmark, hgroup⟩ := exists_other_mark a.group
  refine ⟨mark, hmark, hgroup, fun hgives => ?_⟩
  obtain ⟨front, frame, more, hrow, hbehind, hcut⟩ := Writing.exists_cut_frame hcount hinside
  have hmem : frame ∈ a.row := by
    rw [hrow]
    exact List.mem_append_right _ List.mem_cons_self
  have hpart : ∀ f ∈ front, f ∈ a.row := by
    intro f hf
    rw [hrow]
    exact List.mem_append_left _ hf
  have hfull : count ≠ a.bytes.length := by
    rintro rfl
    exact hinside ⟨a.row.length, by rw [List.take_length]; rfl⟩
  have hframeGroup : frame.group = a.group := ha.isStart.group_eq frame hmem
  have hlength : frame.group.length = 16 := by
    rw [hframeGroup]
    exact hmadeUp
  have hcontent : cutContent [] a count [wedge mark] =
      bytesOf front ++
        (frame.toBytes.take (count - (bytesOf front).length) ++ wedgeBytes mark) := by
    have hwedge := (Frame.wedge_succeeds hmark).write_eq (a.bytes.take count)
    have htake := Writing.take_bytes_of_cut hrow (Nat.le_of_lt hbehind) (Nat.le_of_lt hcut)
    rw [cutContent, writeAll, writeAll, List.foldl_nil, List.foldl_cons, List.foldl_nil,
      List.nil_append, hwedge.2, Frame.bytes_wedge hmark, htake, List.append_assoc]
  obtain ⟨truncated, hread⟩ := hgives "" 64 false
  obtain ⟨hok, hentries⟩ := Log.eq_of_read_opened hread
  rw [wholeEntries, if_neg hfull] at hentries
  have hscan := Frame.scan_wedge (fun f hf => ha.fits f (hpart f hf)) (ha.fits frame hmem)
    hlength hmark (Nat.sub_pos_of_lt hbehind) (Nat.sub_lt_left_of_lt_add (Nat.le_of_lt hbehind) hcut)
  rw [← hcontent] at hscan
  rcases hscan with hfails | hsame | ⟨x, hone, hxgroup, hdata⟩
  · exact hok hfails
  · -- Nothing is found but the first frames of the entry that was not finished.
    rw [hsame, ha.found_front hrow] at hentries
    simp at hentries
  · -- All frames that are found are of one group, and too long for the later entry.
    have hall : ∀ f ∈ front ++ [x], f.group = a.group := by
      intro f hf
      rcases List.mem_append.mp hf with hf | hf
      · exact ha.isStart.group_eq f (hpart f hf)
      · rw [List.mem_singleton.mp hf, hxgroup, hframeGroup]
    have hgiven : (wedge mark).entry ∈ (Assembly.found (front ++ [x])).map (·.2) := by
      rw [← hone, ← hentries]
      simp
    obtain ⟨⟨id, entry⟩, hfound, rfl⟩ := List.mem_map.mp hgiven
    exact not_mem_found_of_long hall hdata hfound

/-- What a writer that stopped does to the entries around its own: wherever it stopped, nothing is
hidden as long as nobody writes after it, and nothing that is written later is ever hidden exactly
if it stopped between two of its frames. -/
theorem gives_out_after_cut_iff (ha : a.Succeeds) (hmadeUp : a.group.length = freshIdLength)
    (hcount : count ≤ a.bytes.length) :
    (∀ earlier : List Writing, (∀ w ∈ earlier, w.Succeeds) →
      ((earlier ++ [a]).map (·.group)).Nodup →
      Log.GivesOut (cutContent earlier a count []) (wholeEntries earlier a count [])) ∧
    ((∀ earlier later : List Writing, (∀ w ∈ earlier, w.Succeeds) → (∀ w ∈ later, w.Succeeds) →
      ((earlier ++ a :: later).map (·.group)).Nodup →
      Log.GivesOut (cutContent earlier a count later) (wholeEntries earlier a count later)) ↔
        a.Between count) := by
  refine ⟨fun earlier hearlier hdistinct => gives_out_of_last ha hearlier hdistinct hcount,
    fun hall => ?_, fun hbetween earlier later hearlier hlater hdistinct =>
      gives_out_of_between ha hearlier hlater hdistinct hbetween⟩
  by_contra hinside
  obtain ⟨mark, hmark, hgroup, hhidden⟩ := later_entry_hidden ha hmadeUp hcount hinside
  refine hhidden (hall [] [wedge mark] (by simp) ?_ ?_)
  · intro w hw
    rw [List.mem_singleton] at hw
    exact hw ▸ Frame.wedge_succeeds hmark
  · simpa using hgroup

theorem gives_out_after_cut_iff_wedge :
    (wedge 0xfe).Succeeds ∧ (wedge 0xfe).group.length = freshIdLength ∧
      10 ≤ (wedge 0xfe).bytes.length ∧
      ((∀ earlier later : List Writing, (∀ w ∈ earlier, w.Succeeds) →
        (∀ w ∈ later, w.Succeeds) → ((earlier ++ wedge 0xfe :: later).map (·.group)).Nodup →
        Log.GivesOut (cutContent earlier (wedge 0xfe) 10 later)
          (wholeEntries earlier (wedge 0xfe) 10 later)) ↔ (wedge 0xfe).Between 10) := by
  have hwedge : (wedge 0xfe).Succeeds := Frame.wedge_succeeds (by decide)
  have hcount : 10 ≤ (wedge 0xfe).bytes.length := by decide +kernel
  exact ⟨hwedge, rfl, hcount, (gives_out_after_cut_iff hwedge rfl hcount).2⟩

/-- An entry that takes one frame of 130 bytes. -/
def unfinished : Writing :=
  ⟨.opened "l" 200 true, ⟨.parameters, [0xaa], List.replicate 100 0x55⟩,
    [0, 1, 2, 3, 4, 5, 6, 7, 8, 9, 10, 11, 12, 13, 14, 15]⟩

/-- An entry that is written after it. -/
def hidden : Writing :=
  ⟨.opened "l" 64 true, ⟨.parameters, [0xbb], [1]⟩,
    [16, 17, 18, 19, 20, 21, 22, 23, 24, 25, 26, 27, 28, 29, 30, 31]⟩

/-- After a writer that stopped inside its frame, a later entry is not given out: its bytes are
taken for the missing data, and the log seems to end inside the frame. -/
theorem later_entry_hidden_inside_frame :
    unfinished.Succeeds ∧ hidden.Succeeds ∧ 40 ≤ unfinished.bytes.length ∧
      ([unfinished, hidden].map (·.group)).Nodup ∧
      ¬ Log.GivesOut (cutContent [] unfinished 40 [hidden])
        (wholeEntries [] unfinished 40 [hidden]) := by
  refine ⟨?_, ?_, by decide +kernel, by decide, ?_⟩
  · rw [Writing.Succeeds]
    decide +kernel
  · rw [Writing.Succeeds]
    decide +kernel
  intro hgives
  obtain ⟨truncated, hread⟩ := hgives "l" 64 true
  obtain ⟨-, hentries⟩ := Log.eq_of_read_opened hread
  have hscan : (Frame.scan 0 (cutContent [] unfinished 40 [hidden])).frames = [] := by
    decide +kernel
  rw [hscan] at hentries
  simp [wholeEntries] at hentries

end ParameterLog
