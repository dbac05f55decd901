/-
Module: ParameterLog.Proofs.CursorReading
Purpose: what a cursor gives out and where it stands after a read.
Main exports: Frame.Shows, Cursor.HasRead, Cursor.behind, Cursor.HasRead.read_on, Log.read_opened,
  Log.write_eq_ok, Log.write_of_frames
-/
import ParameterLog.Log
import ParameterLog.Proofs.Growth

/-!
At any moment a log shows some whole frames and perhaps the beginning of a next one (`Shows`). A
cursor that has read some frames (`HasRead`) stands behind them and keeps the ones that wait,
however many reads it took. Reading more never fails, gives out the entries that the new frames
settle, and leaves a cursor that has read the new frames too.
-/

namespace ParameterLog

namespace Frame

/-- The bytes are those of frames, and perhaps of the beginning of a next one. -/
def Shows (content : Bytes) (frames : List Frame) : Prop :=
  (∀ frame ∈ frames, frame.Fits) ∧ ∃ tail, Torn tail ∧ content = bytesOf frames ++ tail

theorem shows_bytesOf {frames : List Frame} (h : ∀ frame ∈ frames, frame.Fits) :
    Shows (bytesOf frames) frames :=
  ⟨h, [], torn_nil, (List.append_nil _).symm⟩

theorem shows_take {frames : List Frame} (h : ∀ frame ∈ frames, frame.Fits) (count : Nat) :
    Shows ((bytesOf frames).take count) (whole count frames) :=
  ⟨fun frame hframe => h frame ((whole_initial count frames).subset hframe), bytesOf_take h count⟩

/-- Bytes at the beginning of a log show its first frames. -/
theorem shows_of_prefix {frames : List Frame} (hfits : ∀ frame ∈ frames, frame.Fits)
    {content : Bytes} (h : content <+: bytesOf frames) :
    Shows content (whole content.length frames) := by
  have htake : content = (bytesOf frames).take content.length := List.prefix_iff_eq_take.mp h
  have hshows := shows_take hfits content.length
  rwa [← htake] at hshows

end Frame

namespace Cursor

open ParameterLog.Frame (bytesOf Shows Continues)

/-- The cursor stands behind frames and keeps those of the groups that wait. -/
structure HasRead (cursor : Cursor) (frames : List Frame) : Prop where
  offset : cursor.offset = (bytesOf frames).length
  pending : cursor.pending = (Assembly.ofFrames frames).remaining

theorem hasRead_start : start.HasRead [] := ⟨rfl, rfl⟩

/-- The entries that new frames settle. -/
def given (xs ys : List Frame) : List Entry :=
  (Assembly.found ((Assembly.ofFrames xs).remaining ++ ys)).map (·.2)

/-- Where a reader of a whole log stands whose content shows frames. -/
def behind (frames : List Frame) (content : Bytes) : Cursor :=
  ⟨(bytesOf frames).length, (Assembly.ofFrames frames).remaining,
    if content.length = (bytesOf frames).length then none else some (bytesOf frames).length⟩

theorem hasRead_behind (frames : List Frame) (content : Bytes) :
    (behind frames content).HasRead frames := ⟨rfl, rfl⟩

/-- Reading on behind what has been read gives out what the new frames settle, and leaves the cursor
where one stands that reads the whole at once. -/
theorem HasRead.read_on {cursor : Cursor} {xs ys : List Frame} {content : Bytes}
    (h : cursor.HasRead xs) (hshows : Shows content (xs ++ ys)) (hcontinues : Continues xs ys)
    (path : String) :
    (∃ truncated, (cursor.read path content).result = .ok ⟨given xs ys, truncated⟩) ∧
      (cursor.read path content).state = behind (xs ++ ys) content := by
  obtain ⟨hfits, tail, htorn, rfl⟩ := hshows
  have hdrop : (bytesOf (xs ++ ys) ++ tail).drop cursor.offset = bytesOf ys ++ tail := by
    rw [h.offset, Frame.bytesOf_append, List.append_assoc, List.drop_left]
  have hscan := Frame.scan_shown (fun f hf => hfits f (List.mem_append_right _ hf)) htorn
    cursor.offset
  have hentries : (Assembly.ofFrames (cursor.pending ++ ys)).entries = given xs ys := by
    rw [Assembly.entries_ofFrames, h.pending, given]
  have hpending : (Assembly.ofFrames (cursor.pending ++ ys)).remaining =
      (Assembly.ofFrames (xs ++ ys)).remaining := by
    rw [h.pending, Assembly.remaining_append hcontinues]
  have hoffset : cursor.offset + (bytesOf ys).length = (bytesOf (xs ++ ys)).length := by
    rw [h.offset, Frame.bytesOf_append, List.length_append]
  have hwhole : (bytesOf (xs ++ ys) ++ tail).length = (bytesOf (xs ++ ys)).length ↔ tail = [] := by
    rw [List.length_append, Nat.add_eq_left, List.length_eq_zero_iff]
  simp only [Cursor.read, behind, hdrop, hscan, hwhole]
  by_cases hempty : tail = []
  · simp only [hempty, if_true, Cursor.take, hentries, hpending, hoffset]
    exact ⟨⟨_, rfl⟩, trivial⟩
  · simp only [hempty, if_false, StoreError.retryable, if_true, Cursor.take, hentries, hpending,
      hoffset, Outcome.reporting]
    exact ⟨⟨_, rfl⟩, trivial⟩

theorem HasRead.read {cursor : Cursor} {xs ys : List Frame} {content : Bytes}
    (h : cursor.HasRead xs) (hshows : Shows content (xs ++ ys)) (hcontinues : Continues xs ys)
    (path : String) :
    (∃ truncated, (cursor.read path content).result = .ok ⟨given xs ys, truncated⟩) ∧
      (cursor.read path content).state.HasRead (xs ++ ys) := by
  obtain ⟨hresult, hstate⟩ := h.read_on hshows hcontinues path
  rw [hstate]
  exact ⟨hresult, hasRead_behind _ _⟩

end Cursor

namespace Log

open ParameterLog.Frame (bytesOf Shows)

/-- The first read of a log gives out all entries. -/
theorem read_opened {content : Bytes} {frames : List Frame} (h : Shows content frames)
    (path : String) (frameSize : Nat) (writable : Bool) :
    ∃ truncated, ((opened path frameSize writable).read content).result =
      .ok ⟨(Assembly.found frames).map (·.2), truncated⟩ := by
  have hcontinues : Frame.Continues [] frames := by
    intro frame _ hbegun
    simp [Frame.groupIds] at hbegun
  exact (Cursor.hasRead_start.read h hcontinues path).1

/-- What was written was cut into frames that fit, and their bytes stand behind what was there. -/
theorem write_eq_ok {log : Log} {entry : Entry} {group content : Bytes}
    (h : (log.write entry group content).result = .ok ()) :
    ∃ row, entry.frames group log.frameSize = .ok row ∧ (∀ frame ∈ row, frame.Fits) ∧
      log.writable = true ∧ (log.write entry group content).state = content ++ bytesOf row := by
  simp only [write] at h ⊢
  cases hwritable : log.writable with
  | false => simp [hwritable, Outcome.fail] at h
  | true =>
    cases hframes : entry.frames group log.frameSize with
    | error e => simp [hwritable, hframes, Outcome.fail] at h
    | ok row =>
      cases hbytes : Frame.encodeAll row with
      | error e => simp [hwritable, hframes, hbytes] at h
      | ok bytes =>
        have hfits := Frame.fits_of_encodeAll hbytes
        have hrow := hbytes
        rw [Frame.encodeAll_eq_ok hfits, Except.ok.injEq] at hrow
        refine ⟨row, rfl, hfits, rfl, ?_⟩
        simp [hbytes, hrow]

/-- Frames that fit are written if the log is open for appending. -/
theorem write_of_frames {log : Log} {entry : Entry} {group : Bytes} {row : List Frame}
    (hwritable : log.writable = true) (hrow : entry.frames group log.frameSize = .ok row)
    (hfits : ∀ frame ∈ row, frame.Fits) (content : Bytes) :
    (log.write entry group content).result = .ok () ∧
      (log.write entry group content).state = content ++ bytesOf row := by
  simp [write, hwritable, hrow, Frame.encodeAll_eq_ok hfits]

end Log
end ParameterLog
