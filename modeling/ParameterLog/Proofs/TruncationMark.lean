/-
Module: ParameterLog.Proofs.TruncationMark
Purpose: which reads the mark of a truncation speaks of.
Main exports: Cursor.WholeBehind, Cursor.CutOffBehind, Cursor.exists_behind, Log.Look, Log.looks,
  Log.Look.marked_iff, Log.mark_describes_iff, Log.mark_outlives_truncation
-/
import Mathlib.Data.List.Chain
import ParameterLog.Proofs.DamagedFrames
import ParameterLog.Proofs.FrameFields

/-!
What stands behind a cursor are whole frames and then one of three things: nothing, a frame that is
cut off, or a byte that is not the version of frames (`exists_behind`). A read takes the mark of a
truncation away in the first case, and in the second sets it to where the cut frame starts, which is
where the cursor stops. In the third case it fails and moves the cursor, but leaves the mark alone.

So the mark describes a read unless the read fails while the mark is set (`Look.marked_iff`), and it
describes all reads of a run just if none that fails comes directly behind one that found a frame
cut off (`mark_describes_iff`). Otherwise a log goes on saying that it ends inside a frame which has
been read by then (`mark_outlives_truncation`).
-/

namespace ParameterLog

open ParameterLog.Frame (bytesOf Torn Scan)

namespace Cursor

variable {cursor : Cursor} {content : Bytes} {frames : List Frame}

/-- Behind the cursor stand whole frames and nothing else. -/
structure WholeBehind (cursor : Cursor) (content : Bytes) (frames : List Frame) : Prop where
  fits : ∀ frame ∈ frames, frame.Fits
  shown : content.drop cursor.offset = bytesOf frames

/-- Behind the cursor stand whole frames and then a frame that is cut off. -/
structure CutOffBehind (cursor : Cursor) (content : Bytes) (frames : List Frame) : Prop where
  fits : ∀ frame ∈ frames, frame.Fits
  shown : ∃ tail, tail ≠ [] ∧ Torn tail ∧ content.drop cursor.offset = bytesOf frames ++ tail

/-- One of three things stands behind any cursor and the whole frames that follow it. -/
theorem exists_behind (cursor : Cursor) (content : Bytes) :
    ∃ frames, cursor.WholeBehind content frames ∨ cursor.CutOffBehind content frames ∨
      ∃ found, cursor.DamagedBehind content frames found := by
  obtain ⟨rest, hrest, hfits, -, hends⟩ :=
    Frame.exists_scanned cursor.offset (content.drop cursor.offset)
  generalize (Frame.scan cursor.offset (content.drop cursor.offset)).frames = frames at hrest hfits
  generalize (Frame.scan cursor.offset (content.drop cursor.offset)).stop = stop at hends
  refine ⟨frames, ?_⟩
  cases hnext : Frame.next stop rest with
  | finished =>
    rw [Frame.next_eq_finished_iff.mp hnext, List.append_nil] at hrest
    exact .inl ⟨hfits, hrest⟩
  | failed e =>
    rcases Frame.next_eq_failed hnext with ⟨found, more, rfl, hother, -⟩ | rfl
    · exact .inr (.inr ⟨found, hfits, ⟨more, hrest⟩, hother⟩)
    · obtain ⟨hne, htorn⟩ := Frame.next_eq_truncated_iff.mp hnext
      exact .inr (.inl ⟨hfits, rest, hne, htorn, hrest⟩)
  | frame frame more =>
    rw [Frame.Ends, hnext] at hends
    exact hends.elim

/-- A read of whole frames takes the mark away. -/
theorem read_of_whole (h : cursor.WholeBehind content frames) (path : String) :
    cursor.read path content =
      cursor.take ⟨frames, cursor.offset + (bytesOf frames).length, none⟩ none none := by
  have hscan := Frame.scan_shown h.fits Frame.torn_nil cursor.offset
  rw [List.append_nil, if_pos rfl] at hscan
  simp [read, h.shown, hscan]

/-- A read up to a frame that is cut off sets the mark to where the cursor stops. -/
theorem read_of_cutOff (h : cursor.CutOffBehind content frames) (path : String) :
    ∃ stop, (cursor.read path content).state.offset = stop ∧
      (cursor.read path content).state.truncatedAt = some stop ∧
      ∃ entries,
        (cursor.read path content).result = .ok ⟨entries, some (.truncatedFrame stop)⟩ := by
  obtain ⟨hfits, tail, hne, htorn, hshown⟩ := h
  have hscan := Frame.scan_shown hfits htorn cursor.offset
  rw [if_neg hne] at hscan
  simp [read, hshown, hscan, StoreError.retryable, take, Outcome.reporting]

end Cursor

namespace Log

/-- A read of a log: the log before it and the content that it finds. -/
structure Look where
  log : Log
  content : Bytes

namespace Look

/-- The log after the read. -/
def after (look : Look) : Log := (look.log.read look.content).state

/-- The read stops at a frame that is cut off at the end of the content. -/
def CutOff (look : Look) : Prop := ∃ frames, look.log.cursor.CutOffBehind look.content frames

/-- The read gives out no entries. -/
def Fails (look : Look) : Prop := ∃ e, (look.log.read look.content).result = .error e

/-- After the read the mark says whether it stopped at a frame that is cut off, and stands where the
log has been read to. -/
def Marked (look : Look) : Prop :=
  ∀ offset, look.after.cursor.truncatedAt = some offset ↔
    look.CutOff ∧ offset = look.after.cursor.offset

theorem CutOff.after_eq {look : Look} (h : look.CutOff) :
    ¬ look.Fails ∧ look.after.cursor.truncatedAt = some look.after.cursor.offset := by
  obtain ⟨frames, hcutOff⟩ := h
  obtain ⟨stop, hoffset, hmark, entries, hresult⟩ := Cursor.read_of_cutOff hcutOff look.log.path
  refine ⟨?_, hmark.trans (congrArg some hoffset.symm)⟩
  rintro ⟨e, herror⟩
  exact absurd (hresult.symm.trans herror) (by simp)

/-- A read that fails leaves the mark alone, and one that does not fail is described by it. -/
theorem cases (look : Look) :
    look.Fails ∧ ¬ look.CutOff ∧ look.after.cursor.truncatedAt = look.log.cursor.truncatedAt ∨
      ¬ look.Fails ∧ look.Marked := by
  obtain ⟨frames, hwhole | hcutOff | ⟨found, hdamaged⟩⟩ :=
    look.log.cursor.exists_behind look.content
  · -- The mark is taken away, and no frame is cut off.
    have hread := Cursor.read_of_whole hwhole look.log.path
    have hmark : look.after.cursor.truncatedAt = none :=
      congrArg (·.state.truncatedAt) hread
    have hcutOff : ¬ look.CutOff := fun h => by simp [h.after_eq.2] at hmark
    refine .inr ⟨?_, fun offset => by simp [hmark, hcutOff]⟩
    rintro ⟨e, herror⟩
    exact absurd ((congrArg (·.result) hread).symm.trans herror) (by simp [Cursor.take])
  · have hcut : look.CutOff := ⟨frames, hcutOff⟩
    obtain ⟨hok, hmark⟩ := hcut.after_eq
    exact .inr ⟨hok, fun offset => by simp [hmark, hcut, eq_comm]⟩
  · have hread := Cursor.read_of_damaged hdamaged look.log.path
    have hfails : look.Fails := ⟨_, congrArg (·.result) hread⟩
    exact .inl ⟨hfails, fun h => h.after_eq.1 hfails, congrArg (·.state.truncatedAt) hread⟩

/-- The mark describes a read unless the read fails and the mark was set before. -/
theorem marked_iff (look : Look) :
    look.Marked ↔ (look.Fails → look.log.cursor.truncatedAt = none) := by
  rcases look.cases with ⟨hfails, hcutOff, hmark⟩ | ⟨hok, hmarked⟩
  · simp [Marked, hfails, hcutOff, hmark, Option.eq_none_iff_forall_ne_some]
  · simp [hok, hmarked]

/-- Where the mark describes a read, it is set just if the read stopped at a frame cut off. -/
theorem Marked.eq_none_iff {look : Look} (h : look.Marked) :
    look.after.cursor.truncatedAt = none ↔ ¬ look.CutOff := by
  rw [Option.eq_none_iff_forall_ne_some]
  constructor
  · exact fun hnone hcutOff => hnone _ ((h _).mpr ⟨hcutOff, rfl⟩)
  · exact fun hcutOff offset hmark => hcutOff ((h offset).mp hmark).1

end Look

/-- The reads of a log behind each of several appends to a content. -/
def looks (log : Log) (content : Bytes) : List Bytes → List Look
  | [] => []
  | piece :: rest =>
    ⟨log, content ++ piece⟩ ::
      (Look.after ⟨log, content ++ piece⟩).looks (content ++ piece) rest

/-- The mark describes all reads of a run just if the first read does not fail while it is set, and
no later read fails directly behind one that set it. -/
theorem marked_looks_iff (log : Log) (content : Bytes) (pieces : List Bytes) :
    (∀ look ∈ log.looks content pieces, look.Marked) ↔
      (∀ look ∈ (log.looks content pieces).head?,
        look.Fails → log.cursor.truncatedAt = none) ∧
      (log.looks content pieces).IsChain fun earlier later => earlier.CutOff → ¬ later.Fails := by
  induction pieces generalizing log content with
  | nil => simp [looks]
  | cons piece rest ih =>
    rw [looks, List.forall_mem_cons, ih, List.isChain_cons, Look.marked_iff, List.head?_cons]
    simp only [Option.mem_def, Option.some.injEq, forall_eq']
    refine and_congr_right fun hfirst => and_congr_left fun _ => ?_
    have hmarked := (Look.marked_iff ⟨log, content ++ piece⟩).mpr hfirst
    exact forall_congr' fun later => forall_congr' fun _ => by
      rw [hmarked.eq_none_iff, imp_not_comm]

/-- The mark of a truncation describes each read of a run just if no read of the run that fails
comes directly behind one that stopped at a frame cut off. Whatever a log holds when it is opened
and whatever is appended between the reads, this is when after each read, failed or not, the mark is
set if and only if the read stopped at a frame cut off at the end of the log, and then stands at the
offset that has been read to. -/
theorem mark_describes_iff (path : String) (frameSize : Nat) (writable : Bool) (content : Bytes)
    (pieces : List Bytes) :
    (∀ look ∈ (opened path frameSize writable).looks content pieces, look.Marked) ↔
      ((opened path frameSize writable).looks content pieces).IsChain
        fun earlier later => earlier.CutOff → ¬ later.Fails := by
  rw [marked_looks_iff]
  exact and_iff_right fun _ _ _ => rfl

/-- The first byte of a frame; then the other nine, and behind them a byte that starts no frame. -/
def overtaken : List Bytes := [[1], [2, 0, 0, 0, 1, 0, 7, 0, 0, 255]]

/-- The second read takes the frame in and fails behind it, at offset 10. The mark still says that
the log ends inside the frame at offset 0. -/
theorem mark_outlives_truncation :
    (∃ look ∈ (opened "l" 64 true).looks [] overtaken,
      (look.log.read look.content).result = .error (.unsupportedVersion "frame" 255 1) ∧
        look.after.cursor.offset = 10 ∧ look.after.cursor.truncatedAt = some 0) ∧
      ¬ ∀ look ∈ (opened "l" 64 true).looks [] overtaken, look.Marked := by
  let second : Look :=
    ⟨((opened "l" 64 true).read [1]).state, [1, 2, 0, 0, 0, 1, 0, 7, 0, 0, 255]⟩
  have hmem : second ∈ (opened "l" 64 true).looks [] overtaken :=
    List.mem_cons_of_mem _ List.mem_cons_self
  have hoffset : second.after.cursor.offset = 10 := by decide +kernel
  have hmark : second.after.cursor.truncatedAt = some 0 := by decide +kernel
  refine ⟨⟨second, hmem, by decide +kernel, hoffset, hmark⟩, fun hall => ?_⟩
  have hstop := ((hall second hmem 0).mp hmark).2
  rw [hoffset] at hstop
  exact absurd hstop (by decide)

end Log
end ParameterLog
