/-
Module: ParameterLog.Proofs.Writings
Purpose: what a log holds to which entries are written one after the other.
Main exports: Writing, Writing.Succeeds, Writing.row, writeAll, writeAll_eq, Writing.Apart,
  Assembly.found_rows, Assembly.size_of_mem_found
-/
import Mathlib.Algebra.GroupWithZero.Nat
import Mathlib.Data.List.Perm.Subperm
import ParameterLog.Proofs.CursorReading

/-!
Writing an entry goes by an open log and a group that is made up. Whether it succeeds does not
depend on what the log holds: its frames (`row`) are appended. The frames of writings under
different groups (`Apart`) hold the entries that were written, in the order of writing
(`found_rows`).

Of frames that were not written like that it is still known that an entry is no shorter than the
data it was put together from (`size_of_mem_found`).
-/

namespace ParameterLog

open ParameterLog.Frame (bytesOf groupIds)

/-- An entry that is written by an open log under a group. -/
structure Writing where
  log : Log
  entry : Entry
  group : Bytes
deriving Repr, DecidableEq, Inhabited

namespace Writing

/-- The writing succeeds. -/
def Succeeds (w : Writing) : Prop := (w.log.write w.entry w.group []).result = .ok ()

/-- The frames of the entry. -/
def row (w : Writing) : List Frame := (w.entry.frames w.group w.log.frameSize).toOption.getD []

/-- The bytes that are appended. -/
def bytes (w : Writing) : Bytes := bytesOf w.row

namespace Succeeds

variable {w : Writing}

theorem frames_eq (h : w.Succeeds) : w.entry.frames w.group w.log.frameSize = .ok w.row := by
  obtain ⟨row, hrow, -⟩ := Log.write_eq_ok h
  rw [Writing.row, hrow]
  rfl

theorem fits (h : w.Succeeds) : ∀ frame ∈ w.row, frame.Fits := by
  obtain ⟨row, hrow, hfits, -⟩ := Log.write_eq_ok h
  have hsame : w.row = row := by
    rw [Writing.row, hrow]
    rfl
  rwa [hsame]

/-- The bytes are appended to whatever there is. -/
theorem write_eq (h : w.Succeeds) (content : Bytes) :
    (w.log.write w.entry w.group content).result = .ok () ∧
      (w.log.write w.entry w.group content).state = content ++ w.bytes := by
  obtain ⟨-, -, -, hwritable, -⟩ := Log.write_eq_ok h
  exact Log.write_of_frames hwritable h.frames_eq h.fits content

theorem isStart (h : w.Succeeds) : Frame.IsStart w.group w.row :=
  (Frame.isStart_of_frames h.frames_eq).1

theorem row_ne_nil (h : w.Succeeds) : w.row ≠ [] := (Frame.isStart_of_frames h.frames_eq).2

theorem groupIds_row (h : w.Succeeds) : groupIds w.row = [w.group] :=
  Frame.groupIds_of_group h.row_ne_nil h.isStart.group_eq

end Succeeds

end Writing

/-- The content of a log after writings, one after the other. -/
def writeAll (ws : List Writing) (content : Bytes) : Bytes :=
  ws.foldl (fun content w => (w.log.write w.entry w.group content).state) content

/-- The frames of writings. -/
def rowsOf (ws : List Writing) : List Frame := ws.flatMap Writing.row

@[simp] theorem rowsOf_nil : rowsOf [] = [] := rfl

@[simp] theorem rowsOf_cons (w : Writing) (ws : List Writing) :
    rowsOf (w :: ws) = w.row ++ rowsOf ws := by
  simp [rowsOf]

theorem writeAll_eq {ws : List Writing} (h : ∀ w ∈ ws, w.Succeeds) (content : Bytes) :
    writeAll ws content = content ++ bytesOf (rowsOf ws) := by
  induction ws generalizing content with
  | nil => simp [writeAll]
  | cons w rest ih =>
    have hfirst := ((h w List.mem_cons_self).write_eq content).2
    have hrest := ih (fun v hv => h v (List.mem_cons_of_mem _ hv)) (content ++ w.bytes)
    rw [writeAll, List.foldl_cons, hfirst]
    rw [writeAll] at hrest
    rw [hrest]
    simp [Writing.bytes]

theorem fits_rowsOf {ws : List Writing} (h : ∀ w ∈ ws, w.Succeeds) :
    ∀ frame ∈ rowsOf ws, frame.Fits := by
  intro frame hframe
  obtain ⟨w, hw, hframe⟩ := List.mem_flatMap.mp hframe
  exact (h w hw).fits frame hframe

theorem groupIds_rowsOf {ws : List Writing} (h : ∀ w ∈ ws, w.Succeeds) {id : Bytes}
    (hid : id ∈ groupIds (rowsOf ws)) : id ∈ ws.map (·.group) := by
  obtain ⟨frame, hframe, rfl⟩ := Frame.mem_groupIds.mp hid
  exact Frame.group_of_mem_blocks (fun w hw => (h w hw).isStart.group_eq) hframe

/-- Writings that succeed, under different groups. -/
structure Writing.Apart (ws : List Writing) : Prop where
  succeed : ∀ w ∈ ws, w.Succeeds
  distinct : (ws.map (·.group)).Nodup

namespace Writing.Apart

variable {ws us : List Writing} {x y : Writing}

theorem subperm (h : Apart ws) (hsub : us.Subperm ws) : Apart us := by
  refine ⟨fun w hw => h.succeed w (hsub.subset hw), ?_⟩
  obtain ⟨l, hperm, hsublist⟩ := hsub
  exact (hperm.map _).nodup_iff.mp ((hsublist.map _).nodup h.distinct)

/-- What writings under different groups are to each other. -/
theorem parts (h : Apart (us ++ [x, y])) :
    Apart us ∧ x.Succeeds ∧ y.Succeeds ∧ x.group ≠ y.group ∧
      ∀ u ∈ us, ∀ v ∈ [x, y], u.group ≠ v.group := by
  have hdistinct := h.distinct
  rw [List.map_append, List.nodup_append] at hdistinct
  obtain ⟨hus, hpair, hacross⟩ := hdistinct
  refine ⟨⟨fun u hu => h.succeed u (List.mem_append_left _ hu), hus⟩, h.succeed x (by simp),
    h.succeed y (by simp), by simpa using hpair, fun u hu v hv => ?_⟩
  exact hacross _ (List.mem_map_of_mem hu) _ (List.mem_map_of_mem hv)

end Writing.Apart

namespace Assembly

/-- Entries that are written under different groups are found in the order of writing. -/
theorem found_rows {ws : List Writing} (h : ∀ w ∈ ws, w.Succeeds)
    (hdistinct : (ws.map (·.group)).Nodup) :
    found (rowsOf ws) = ws.map fun w => (w.group, w.entry) := by
  induction ws with
  | nil => rfl
  | cons w rest ih =>
    have hw := h w List.mem_cons_self
    have hrest : ∀ v ∈ rest, v.Succeeds := fun v hv => h v (List.mem_cons_of_mem _ hv)
    rw [List.map_cons, List.nodup_cons] at hdistinct
    have hdisjoint : ∀ id ∈ groupIds (rowsOf rest), id ∉ groupIds w.row := by
      intro id hid hmem
      rw [hw.groupIds_row, List.mem_singleton] at hmem
      exact hdistinct.1 (hmem ▸ groupIds_rowsOf hrest hid)
    rw [rowsOf_cons, found_append_of_disjoint hdisjoint, found_frames hw.frames_eq,
      ih hrest hdistinct.2]
    rfl

/-- Entries that are written under different groups leave no frames that wait. -/
theorem remaining_rows {ws : List Writing} (h : ∀ w ∈ ws, w.Succeeds)
    (hdistinct : (ws.map (·.group)).Nodup) : (ofFrames (rowsOf ws)).remaining = [] := by
  rw [remaining_ofFrames, List.flatMap_eq_nil_iff]
  intro id hid
  obtain ⟨w, hw, rfl⟩ := List.mem_map.mp (groupIds_rowsOf h hid)
  have hmem : (w.group, w.entry) ∈ found (rowsOf ws) := by
    rw [found_rows h hdistinct]
    exact List.mem_map_of_mem hw
  have hsettled : ¬ Frame.Waiting (rowsOf ws) w.group :=
    fun hwaiting => not_open_of_mem_found hmem fun _ => hwaiting
  rw [frames_resolve, if_neg hsettled]

/-- An entry has the size of the data it was put together from. -/
theorem size_of_mem_found {frames : List Frame} {id : Bytes} {entry : Entry}
    (h : (id, entry) ∈ found frames) :
    entry.size = ((Frame.ofGroup frames id).map (·.data.length)).sum := by
  obtain ⟨-, hentry⟩ := mem_found h
  rw [resolve, Resolution.ofGroup] at hentry
  cases hverdict : Verdict.ofGroup (Frame.ofGroup frames id) with
  | incomplete => simp [hverdict, Resolution.decoded?] at hentry
  | contradictory reason => simp [hverdict, Resolution.decoded?] at hentry
  | complete bytes =>
    rw [hverdict] at hentry
    dsimp only at hentry
    split at hentry
    · next decoded hdecode =>
      simp only [Resolution.decoded?, Option.some.injEq] at hentry
      subst hentry
      rw [← Entry.size_of_decode hdecode, Verdict.data_of_complete hverdict, List.length_flatMap]
      exact ((Frame.byIndex_perm _).map _).sum_nat
    · simp [Resolution.decoded?] at hentry

end Assembly
end ParameterLog
