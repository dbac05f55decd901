/-
Module: ParameterLog.Proofs.DamagedFrames
Purpose: a read that fails at a damaged frame makes no difference to later reads.
Main exports: Cursor.DamagedBehind, Cursor.read_of_damaged, Cursor.damaged_of_read_error,
  Cursor.read_keeping, Log.read_after_damage, Log.read_after_damages
-/
import ParameterLog.Log
import ParameterLog.Proofs.FrameScanning

/-!
A read fails where a frame should start and a byte stands that is not the version of frames
(`DamagedBehind`); nothing else makes it fail. It leaves the cursor in front of that byte and keeps
the frames before it as they are, without putting them together. As the next read puts what is kept
in front of the frames that it finds, it does not matter whether those frames were kept before or
are read now (`read_keeping`). So once the damage is mended, or turned into any other damage, a read
comes to what it would have come to without the reads that failed before (`read_after_damage`,
`read_after_damages`).
-/

namespace ParameterLog

open ParameterLog.Frame (bytesOf Scan)

namespace Cursor

variable {cursor : Cursor} {content later : Bytes} {path : String} {frames : List Frame}

/-- Behind the cursor stand whole frames and then, where a frame should start, a byte that is not
the version of frames. -/
structure DamagedBehind (cursor : Cursor) (content : Bytes) (frames : List Frame) (found : UInt8) :
    Prop where
  fits : ∀ frame ∈ frames, frame.Fits
  shown : ∃ rest, content.drop cursor.offset = bytesOf frames ++ found :: rest
  other : found ≠ frameVersion

/-- The error about a damaged frame. -/
def damage (found : UInt8) : StoreError :=
  .unsupportedVersion "frame" found.toNat frameVersion.toNat

/-- The cursor behind frames that it keeps. -/
def keeping (cursor : Cursor) (frames : List Frame) : Cursor :=
  { cursor with
    offset := cursor.offset + (bytesOf frames).length, pending := cursor.pending ++ frames }

/-- What a read at a damaged frame comes to. -/
theorem read_of_damaged {found : UInt8} (h : cursor.DamagedBehind content frames found)
    (path : String) :
    cursor.read path content =
      ⟨.error (damage found), cursor.keeping frames,
        [.damagedFrame path (cursor.offset + (bytesOf frames).length) (damage found)]⟩ := by
  obtain ⟨hfits, ⟨rest, hrest⟩, hother⟩ := h
  have hends : Frame.Ends (cursor.offset + (bytesOf frames).length) (found :: rest)
      (some (damage found)) := by
    simp [Frame.Ends, Frame.next, hother, damage]
  have hscan := Frame.scan_append hfits cursor.offset (found :: rest)
  rw [Frame.scan_of_ends hends] at hscan
  simp [read, hrest, hscan, Scan.behind, damage, StoreError.retryable, keep, keeping]

/-- A read fails at a damaged frame only. -/
theorem damaged_of_read_error {e : StoreError} (h : (cursor.read path content).result = .error e) :
    ∃ frames found, cursor.DamagedBehind content frames found := by
  obtain ⟨rest, hrest, hfits, -, hends⟩ :=
    Frame.exists_scanned cursor.offset (content.drop cursor.offset)
  simp only [read] at h
  split at h
  · simp [take] at h
  · next failure hfailure =>
    split at h
    · simp [take, Outcome.reporting] at h
    · -- A frame cut off does not make a read fail, so it is another version that was met.
      next hfinal =>
      rw [hfailure, Frame.Ends] at hends
      split at hends
      · simp at hends
      · next failed hnext =>
        simp only [Option.some.injEq] at hends
        subst hends
        rcases Frame.next_eq_failed hnext with ⟨found, more, rfl, hother, -⟩ | rfl
        · exact ⟨_, found, hfits, ⟨more, hrest⟩, hother⟩
        · exact absurd rfl hfinal
      · exact hends.elim

/-- Keeping frames that stand behind the cursor before a read or reading them in it is the same. -/
theorem read_keeping (hfits : ∀ frame ∈ frames, frame.Fits)
    (hshown : bytesOf frames <+: content.drop cursor.offset) (path : String) :
    (cursor.keeping frames).read path content = cursor.read path content := by
  obtain ⟨rest, hrest⟩ := hshown
  have hdrop : content.drop (cursor.offset + (bytesOf frames).length) = rest := by
    rw [← List.drop_drop, ← hrest, List.drop_left]
  have hscan := Frame.scan_append hfits cursor.offset rest
  rw [hrest] at hscan
  have hoffset : (cursor.keeping frames).offset = cursor.offset + (bytesOf frames).length := rfl
  have hpending : (cursor.keeping frames).pending = cursor.pending ++ frames := rfl
  simp only [read, hoffset, hdrop, hscan, Scan.behind, take, keep, hpending, List.append_assoc]
  rfl

/-- Bytes that agree up to the end of frames behind the cursor show the frames alike. -/
theorem shown_of_take_eq (hshown : bytesOf frames <+: content.drop cursor.offset)
    (hsame : later.take (cursor.offset + (bytesOf frames).length) =
      content.take (cursor.offset + (bytesOf frames).length)) :
    bytesOf frames <+: later.drop cursor.offset := by
  rw [List.prefix_iff_eq_take] at hshown ⊢
  rw [List.take_drop, hsame, ← List.take_drop, ← hshown]

/-- A read that fails leaves the cursor where it makes no difference to a read of content that is
the same up to there. -/
theorem read_after_error {e : StoreError} (h : (cursor.read path content).result = .error e)
    (hsame : later.take (cursor.read path content).state.offset =
      content.take (cursor.read path content).state.offset) :
    (cursor.read path content).state.read path later = cursor.read path later := by
  obtain ⟨frames, found, hdamaged⟩ := damaged_of_read_error h
  rw [read_of_damaged hdamaged] at hsame ⊢
  obtain ⟨rest, hrest⟩ := hdamaged.shown
  have hshown : bytesOf frames <+: content.drop cursor.offset := ⟨found :: rest, hrest.symm⟩
  exact read_keeping hdamaged.fits (shown_of_take_eq hshown hsame) path

end Cursor

namespace Log

variable {log : Log} {content later : Bytes}

/-- A log after a read that fails reads content that is the same up to the damaged frame as it
would have done before. -/
theorem read_after_error {e : StoreError} (h : (log.read content).result = .error e)
    (hsame : later.take (log.read content).state.cursor.offset =
      content.take (log.read content).state.cursor.offset) :
    (log.read content).state.read later = log.read later := by
  have hcursor := Cursor.read_after_error h hsame
  simp only [read, Outcome.mapState] at hcursor ⊢
  rw [hcursor]

/-- A read that fails at a damaged frame stops in front of that frame and makes no difference.
Whatever state the log was in, if the content is the same up to the start of the damaged frame, then
the next read gives out the same entries, reports the same truncation or fails with the same error,
and leaves the log in the same state as if the read that failed had not been made. -/
theorem read_after_damage {context : String} {found expected start : Nat}
    (hdamaged : (log.read content).result = .error (.unsupportedVersion context found expected))
    (hstart : (log.read content).state.cursor.offset = start)
    (hsame : later.take start = content.take start) :
    (∃ frames byte, log.cursor.DamagedBehind content frames byte ∧
        start = log.cursor.offset + (bytesOf frames).length) ∧
      (log.read content).state.read later = log.read later := by
  subst hstart
  refine ⟨?_, read_after_error hdamaged hsame⟩
  obtain ⟨frames, byte, hbehind⟩ := Cursor.damaged_of_read_error hdamaged
  refine ⟨frames, byte, hbehind, ?_⟩
  rw [read, Outcome.mapState, Cursor.read_of_damaged hbehind]
  rfl

/-- A log that has read two bytes, waits for a frame, and found a frame cut off. -/
def halfway : Log := ⟨"l", 64, true, ⟨2, [⟨2, 1, [7], [65]⟩], some 2⟩⟩

/-- The frame that the log waits for. -/
def awaited : Frame := ⟨2, 0, [7], [1, 1, 0, 0]⟩

theorem damaged_halfway :
    halfway.cursor.DamagedBehind ([9, 9] ++ awaited.toBytes ++ [2, 0]) [awaited] 2 :=
  ⟨by decide, ⟨[0], by decide⟩, by decide⟩

theorem read_after_damage_mended :
    let damaged := [9, 9] ++ awaited.toBytes ++ [2, 0]
    let mended := [9, 9] ++ awaited.toBytes ++ [1, 0]
    (halfway.read damaged).result = .error (.unsupportedVersion "frame" 2 1) ∧
      (halfway.read damaged).state.cursor.offset = 16 ∧ mended.take 16 = damaged.take 16 ∧
      (∃ frames byte, halfway.cursor.DamagedBehind damaged frames byte ∧
        16 = halfway.cursor.offset + (bytesOf frames).length) ∧
      (halfway.read damaged).state.read mended = halfway.read mended := by
  intro damaged mended
  have hread := Cursor.read_of_damaged damaged_halfway halfway.path
  have hresult : (halfway.read damaged).result = .error (.unsupportedVersion "frame" 2 1) := by
    rw [read, Outcome.mapState, hread]
    rfl
  have hstart : (halfway.read damaged).state.cursor.offset = 16 := by
    rw [read, Outcome.mapState, hread]
    rfl
  have hsame : mended.take 16 = damaged.take 16 := by decide
  exact ⟨hresult, hstart, hsame, read_after_damage hresult hstart hsame⟩

/-! ### Any number of failures -/

/-- Reads one content after the other, whatever comes of it. -/
def readEach (log : Log) : List Bytes → Log
  | [] => log
  | content :: rest => (log.read content).state.readEach rest

/-- Each of the reads fails, at a place up to which the content is that of a later one. -/
def FailsOn (log : Log) (later : Bytes) : List Bytes → Prop
  | [] => True
  | content :: rest =>
    (∃ e, (log.read content).result = .error e) ∧
      later.take (log.read content).state.cursor.offset =
        content.take (log.read content).state.cursor.offset ∧
      (log.read content).state.FailsOn later rest

/-- However many reads fail in a row, they make no difference to the next one. -/
theorem read_after_damages {contents : List Bytes} (h : log.FailsOn later contents) :
    (log.readEach contents).read later = log.read later := by
  induction contents generalizing log with
  | nil => rfl
  | cons content rest ih =>
    obtain ⟨⟨e, herror⟩, hsame, hrest⟩ := h
    calc ((log.read content).state.readEach rest).read later
        = (log.read content).state.read later := ih hrest
      _ = log.read later := read_after_error herror hsame

end Log
end ParameterLog
