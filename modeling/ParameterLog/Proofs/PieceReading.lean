/-
Module: ParameterLog.Proofs.PieceReading
Purpose: reading a log while it grows gives out what one read of the whole gives out.
Main exports: Log.follow, Log.follow_behind, Log.read_in_pieces
-/
import ParameterLog.Proofs.Scattering

/-!
A log grows piece by piece, and the pieces may be cut anywhere, also inside a frame. A reader that
reads behind each piece is left in front of the frame that is cut off and keeps the frames of the
groups that wait, which is where one read of the same bytes leaves a reader (`Cursor.behind`). What
it has given out by then is what that one read gives out, though perhaps in another order
(`follow_behind`).
-/

namespace ParameterLog

open ParameterLog.Frame (bytesOf whole Scatters Cuttable)
open Assembly (found)

namespace Log

/-- Reads a log behind each of several appends and collects the entries. -/
def follow (content : Bytes) : List Bytes → Log → Outcome Log (List Entry)
  | [], log => .done log []
  | piece :: rest, log =>
    (log.read (content ++ piece)).andThen fun reading log =>
      (log.follow (content ++ piece) rest).map (reading.entries ++ ·)

variable {frames : List Frame} {log : Log} {content : Bytes}

/-- Reading on behind one more piece. -/
theorem read_piece (hfits : ∀ frame ∈ frames, frame.Fits) (hcuttable : Cuttable frames)
    {piece : Bytes} (hinitial : content ++ piece <+: bytesOf frames)
    (h : log.cursor = .behind (whole content.length frames) content) :
    ∃ reading, (log.read (content ++ piece)).result = .ok reading ∧
      ((found (whole content.length frames)).map (·.2) ++ reading.entries).Perm
        ((found (whole (content ++ piece).length frames)).map (·.2)) ∧
      (log.read (content ++ piece)).state.cursor =
        .behind (whole (content ++ piece).length frames) (content ++ piece) := by
  have hshows := Frame.shows_of_prefix hfits hinitial
  have hlonger : content.length ≤ (content ++ piece).length := by simp
  obtain ⟨ys, hys⟩ := Frame.whole_mono hlonger frames
  obtain ⟨zs, hzs⟩ := Frame.whole_initial (content ++ piece).length frames
  have hcontinues : Frame.Continues (whole content.length frames) ys := by
    intro frame hframe
    rw [← hys, List.append_assoc] at hzs
    exact hcuttable _ _ hzs.symm frame (List.mem_append_left _ hframe)
  have hread : log.cursor.HasRead (whole content.length frames) := h ▸ Cursor.hasRead_behind _ _
  rw [← hys] at hshows
  obtain ⟨⟨truncated, hresult⟩, hstate⟩ := hread.read_on hshows hcontinues log.path
  refine ⟨_, hresult, ?_, ?_⟩
  · have hperm := (Assembly.found_append_perm hcontinues).map (·.2)
    rwa [List.map_append, hys] at hperm
  · rwa [hys] at hstate

/-- Reading behind each of several pieces gives out what has come since, and leaves the reader where
one stands that reads everything at once. -/
theorem follow_behind (hfits : ∀ frame ∈ frames, frame.Fits) (hcuttable : Cuttable frames)
    {pieces : List Bytes} (hinitial : content ++ pieces.flatten <+: bytesOf frames)
    (h : log.cursor = .behind (whole content.length frames) content) :
    ∃ entries, (log.follow content pieces).result = .ok entries ∧
      ((found (whole content.length frames)).map (·.2) ++ entries).Perm
        ((found (whole (content ++ pieces.flatten).length frames)).map (·.2)) ∧
      (log.follow content pieces).state.cursor =
        .behind (whole (content ++ pieces.flatten).length frames) (content ++ pieces.flatten) := by
  induction pieces generalizing log content with
  | nil =>
    rw [List.flatten_nil, List.append_nil]
    exact ⟨[], rfl, List.Perm.of_eq (List.append_nil _), h⟩
  | cons piece rest ih =>
    rw [List.flatten_cons, ← List.append_assoc] at hinitial ⊢
    obtain ⟨reading, hresult, hfirst, hstate⟩ :=
      read_piece hfits hcuttable ((List.prefix_append _ _).trans hinitial) h
    obtain ⟨later, hlater, hrest, hlast⟩ := ih hinitial hstate
    refine ⟨reading.entries ++ later, ?_, ?_, ?_⟩
    · rw [follow, Outcome.andThen_of_ok hresult]
      simp only [Outcome.reporting, Outcome.map, hlater, Except.map]
    · rw [← List.append_assoc]
      exact (hfirst.append_right later).trans hrest
    · rw [follow, Outcome.andThen_of_ok hresult]
      exact hlast

theorem cursor_opened (path : String) (frameSize : Nat) (writable : Bool) (frames : List Frame) :
    (opened path frameSize writable).cursor =
      .behind (whole ([] : Bytes).length frames) [] := by
  rw [List.length_nil, Frame.whole_zero]
  rfl

/-- Reading a log in pieces neither loses nor repeats an entry. However the frames of some writings
are scattered, and wherever the log is cut into pieces, no read behind a piece fails, the entries
given out are those that one read of all the pieces gives out, and both readers stand at one offset,
found the same frame cut off and keep the same frames. -/
theorem read_in_pieces {ws : List Writing} (hws : ∀ w ∈ ws, w.Succeeds) (h : Scatters frames ws)
    {pieces : List Bytes} (hpieces : pieces.flatten <+: bytesOf frames) (path otherPath : String)
    (frameSize otherFrameSize : Nat) (writable otherWritable : Bool) :
    ∃ entries reading,
      ((opened path frameSize writable).follow [] pieces).result = .ok entries ∧
      ((opened otherPath otherFrameSize otherWritable).read pieces.flatten).result = .ok reading ∧
      entries.Perm reading.entries ∧
      ((opened path frameSize writable).follow [] pieces).state.cursor =
        ((opened otherPath otherFrameSize otherWritable).read pieces.flatten).state.cursor := by
  have hfits := h.fits hws
  have hcuttable := h.cuttable hws
  obtain ⟨entries, hentries, hperm, hcursor⟩ := follow_behind hfits hcuttable hpieces
    (cursor_opened path frameSize writable frames)
  obtain ⟨reading, hreading, hwhole, hstate⟩ := read_piece hfits hcuttable hpieces
    (cursor_opened otherPath otherFrameSize otherWritable frames)
  refine ⟨entries, reading, hentries, hreading, ?_, hcursor.trans hstate.symm⟩
  exact (List.perm_append_left_iff _).mp (hperm.trans hwhole.symm)

/-- An entry of three frames. -/
def long : Writing :=
  ⟨opened "l" 30 true, ⟨.untyped, [7], [1, 2, 3, 4, 5, 6, 7, 8, 9]⟩,
    [0, 1, 2, 3, 4, 5, 6, 7, 8, 9, 10, 11, 12, 13, 14, 15]⟩

/-- An entry of two frames. -/
def brief : Writing :=
  ⟨opened "l" 30 true, ⟨.untyped, [8], [1, 2]⟩,
    [16, 17, 18, 19, 20, 21, 22, 23, 24, 25, 26, 27, 28, 29, 30, 31]⟩

/-- The frames of the two, with the middle one of the long entry missing. -/
def shuffled : List Frame :=
  long.row.drop 2 ++ brief.row.drop 1 ++ long.row.take 1 ++ brief.row.take 1

/-- Their bytes, cut twice inside a frame. -/
def shuffledPieces : List Bytes :=
  [(bytesOf shuffled).take 40, ((bytesOf shuffled).drop 40).take 60, (bytesOf shuffled).drop 100]

theorem read_in_pieces_shuffled :
    (∀ w ∈ [long, brief], w.Succeeds) ∧ Scatters shuffled [long, brief] ∧
      shuffledPieces.flatten <+: bytesOf shuffled ∧
      ∃ entries reading,
        ((opened "l" 30 true).follow [] shuffledPieces).result = .ok entries ∧
        ((opened "l" 64 false).read shuffledPieces.flatten).result = .ok reading ∧
        entries.Perm reading.entries ∧
        ((opened "l" 30 true).follow [] shuffledPieces).state.cursor =
          ((opened "l" 64 false).read shuffledPieces.flatten).state.cursor := by
  have hlong : long.Succeeds := by
    rw [Writing.Succeeds]
    decide +kernel
  have hbrief : brief.Succeeds := by
    rw [Writing.Succeeds]
    decide +kernel
  have hws : ∀ w ∈ [long, brief], w.Succeeds := by
    rintro w hw
    rcases List.mem_cons.mp hw with rfl | hw
    · exact hlong
    · exact List.mem_singleton.mp hw ▸ hbrief
  have hscatters : Scatters shuffled [long, brief] := by
    constructor
    · decide +kernel
    · decide +kernel
  have hpieces : shuffledPieces.flatten <+: bytesOf shuffled := by decide +kernel
  exact ⟨hws, hscatters, hpieces, read_in_pieces hws hscatters hpieces "l" "l" 30 64 true false⟩

end Log
end ParameterLog
