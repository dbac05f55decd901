/-
Module: ParameterLog.Proofs.CompleteGroups
Purpose: which entries the frames of a log hold, whatever order they stand in.
Main exports: Frame.Completes, Verdict.ofGroup_eq_complete, Frame.HoldsEntry,
  Assembly.mem_found_iff, Frame.firstAt, Assembly.found_sorted
-/
import Mathlib.Data.List.Induction
import ParameterLog.Proofs.Growth

/-!
Putting frames together sorts them, counts them and looks for neighbours that repeat. What comes out
of it can be said without any of that: the frames of a group make up an entry if they can be
arranged so that they are numbered from zero on, all of them announce their number, and their data
in a row is the binary form of the entry (`HoldsEntry`). The entries are found in the order of the
first frames of their groups (`firstAt`).
-/

namespace ParameterLog

namespace Frame

/-- The frames of a group, arranged by their numbers, make up some bytes. -/
def Completes (group : List Frame) (bytes : Bytes) : Prop :=
  ∃ arranged : List Frame, arranged.Perm group ∧ arranged ≠ [] ∧
    arranged.map (·.index.toNat) = List.range arranged.length ∧
    (∀ frame ∈ arranged, frame.total.toNat = arranged.length) ∧
    bytes = arranged.flatMap (·.data)

/-- The frames of a group make up an entry. -/
def HoldsEntry (frames : List Frame) (id : Bytes) (entry : Entry) : Prop :=
  ∃ bytes, Completes (ofGroup frames id) bytes ∧ Entry.decode bytes = .ok entry

/-- Every frame of a complete group announces how many there are. -/
theorem Completes.total_eq {group : List Frame} {bytes : Bytes} (h : Completes group bytes) :
    ∀ frame ∈ group, frame.total.toNat = group.length := by
  obtain ⟨arranged, hperm, -, -, htotals, -⟩ := h
  intro frame hframe
  rw [htotals frame (hperm.mem_iff.mpr hframe), hperm.length_eq]

/-- Where the first frame of a group stands. -/
def firstAt (frames : List Frame) (id : Bytes) : Nat := frames.findIdx (·.group == id)

theorem groupIds_concat (frames : List Frame) (frame : Frame) :
    groupIds (frames ++ [frame]) =
      if frame.group ∈ groupIds frames then groupIds frames
      else groupIds frames ++ [frame.group] := by
  rw [groupIds_append]
  by_cases hknown : frame.group ∈ groupIds frames
  · have hnone : [frame].filter (fun f => f.group ∉ groupIds frames) = [] := by
      simp only [List.filter_cons, hknown, not_true_eq_false, decide_false, Bool.false_eq_true,
        if_false, List.filter_nil]
    rw [hnone, if_pos hknown]
    exact List.append_nil _
  · have hone : [frame].filter (fun f => f.group ∉ groupIds frames) = [frame] := by
      simp only [List.filter_cons, hknown, not_false_eq_true, decide_true, if_true,
        List.filter_nil]
    have hgroup : groupIds [frame] = [frame.group] :=
      groupIds_of_group (List.cons_ne_nil _ _) fun f hf => by rw [List.mem_singleton.mp hf]
    rw [hone, if_neg hknown, hgroup]

theorem byIndex_of_numbered {frames : List Frame}
    (h : frames.map (·.index.toNat) = List.range frames.length) : byIndex frames = frames := by
  have hsorted : (frames.map (·.index.toNat)).Pairwise (· ≤ ·) := h ▸ List.pairwise_le_range
  exact byIndex_of_sorted <|
    (List.pairwise_map.mp hsorted).imp fun hle => UInt16.le_iff_toNat_le.mpr hle

end Frame

namespace Verdict

open ParameterLog.Frame (byIndex indices Completes)

/-- The first frame announces what all frames announce. -/
theorem announced_of_totals {group : List Frame} {total : Nat} (hne : group ≠ [])
    (h : ∀ frame ∈ group, frame.total.toNat = total) : announced group = total := by
  obtain ⟨first, rest, rfl⟩ := List.exists_cons_of_ne_nil hne
  exact h first List.mem_cons_self

theorem completes_of_complete {group : List Frame} {bytes : Bytes}
    (h : ofGroup group = .complete bytes) : Completes group bytes := by
  have hbytes := data_of_complete h
  rw [ofGroup_eq] at h
  split at h
  · simp at h
  · next hpos =>
    split at h
    · simp at h
    · next htotals =>
      split at h
      · simp at h
      · split at h
        · simp at h
        · split at h
          · next hrange =>
            have hperm := Frame.byIndex_perm group
            have hcount : announced group = (byIndex group).length := by
              simpa [indices] using (congrArg List.length hrange).symm
            refine ⟨byIndex group, hperm, ?_, hcount ▸ hrange, fun frame hframe => ?_, hbytes⟩
            · rw [← List.length_pos_iff]
              omega
            · have hagree : ∀ frame ∈ group, frame.total.toNat = announced group := by
                simpa using htotals
              rw [hagree frame (hperm.mem_iff.mp hframe), hcount]
          · simp at h

theorem complete_of_completes {group : List Frame} {bytes : Bytes} (h : Completes group bytes) :
    ofGroup group = .complete bytes := by
  obtain ⟨arranged, hperm, hne, hnumbers, htotals, rfl⟩ := h
  have hagree : ∀ frame ∈ group, frame.total.toNat = arranged.length :=
    fun frame hframe => htotals frame (hperm.mem_iff.mpr hframe)
  have hgroup : group ≠ [] := fun hempty => hne (hempty ▸ hperm).eq_nil
  have hannounced := announced_of_totals hgroup hagree
  have hsorted := Frame.byIndex_of_numbered hnumbers
  have hindices : indices group = List.range arranged.length := by
    rw [← Frame.indices_perm hperm, indices, hsorted, hnumbers]
  have hnodup : (indices arranged).Nodup := by
    rw [indices, hsorted, hnumbers]
    exact List.nodup_range
  have hsame : byIndex group = arranged := by
    rw [← Frame.byIndex_eq_of_perm hperm hnodup, hsorted]
  have hpos : arranged.length ≠ 0 := Nat.ne_of_gt (List.length_pos_iff.mpr hne)
  have hany : ¬ (group.any fun f => decide (f.total.toNat ≠ arranged.length)) = true := by
    simpa using hagree
  have hfew : ¬ arranged.length < group.length := by
    rw [hperm.length_eq]
    exact Nat.lt_irrefl _
  rw [ofGroup_eq, hannounced, if_neg hpos, if_neg hany, if_neg hfew, hindices,
    repeats_eq_false_of_nodup List.nodup_range, if_neg Bool.false_ne_true, if_pos rfl, hsame]

/-- A group is complete if its frames can be arranged by their numbers. -/
theorem ofGroup_eq_complete {group : List Frame} {bytes : Bytes} :
    ofGroup group = .complete bytes ↔ Completes group bytes :=
  ⟨completes_of_complete, complete_of_completes⟩

end Verdict

namespace Assembly

open ParameterLog.Frame (groupIds ofGroup HoldsEntry firstAt)

theorem decoded?_resolve {frames : List Frame} {id : Bytes} {entry : Entry} :
    (resolve frames id).decoded? = some entry ↔ HoldsEntry frames id entry := by
  simp only [HoldsEntry, ← Verdict.ofGroup_eq_complete, resolve, Resolution.ofGroup]
  cases Verdict.ofGroup (ofGroup frames id) with
  | incomplete => simp [Resolution.decoded?]
  | contradictory reason => simp [Resolution.decoded?]
  | complete bytes =>
    cases hdecode : Entry.decode bytes <;> simp [Resolution.decoded?, hdecode]

theorem mem_groupIds_of_holdsEntry {frames : List Frame} {id : Bytes} {entry : Entry}
    (h : HoldsEntry frames id entry) : id ∈ groupIds frames := by
  obtain ⟨bytes, ⟨arranged, hperm, hne, -⟩, -⟩ := h
  by_contra hnot
  rw [Frame.ofGroup_eq_nil hnot] at hperm
  exact hne hperm.eq_nil

/-- The entries that are found are those that the frames of some group make up. -/
theorem mem_found_iff {frames : List Frame} {id : Bytes} {entry : Entry} :
    (id, entry) ∈ found frames ↔ HoldsEntry frames id entry := by
  constructor
  · exact fun h => decoded?_resolve.mp (mem_found h).2
  · intro h
    refine List.mem_filterMap.mpr ⟨id, mem_groupIds_of_holdsEntry h, ?_⟩
    rw [decoded?_resolve.mpr h]
    rfl

/-- A group whose frames are those that an entry is cut into makes up that entry. -/
theorem holdsEntry_of_row {frames : List Frame} {id : Bytes} {entry : Entry} {frameSize : Nat}
    (h : entry.frames id frameSize = .ok (ofGroup frames id)) {other : Entry} :
    HoldsEntry frames id other ↔ other = entry := by
  have hidem : ofGroup (ofGroup frames id) id = ofGroup frames id :=
    Frame.ofGroup_eq_self fun frame hframe => (Frame.mem_ofGroup.mp hframe).2
  have hown : HoldsEntry frames id other ↔ HoldsEntry (ofGroup frames id) id other := by
    simp only [HoldsEntry, hidem]
  rw [hown, ← mem_found_iff, found_frames h, List.mem_singleton, Prod.mk.injEq]
  exact and_iff_right rfl

/-! ### The order -/

theorem firstAt_concat {frames : List Frame} {frame : Frame} {id : Bytes} :
    firstAt (frames ++ [frame]) id =
      if id ∈ groupIds frames then firstAt frames id
      else frames.length + [frame].findIdx (·.group == id) := by
  simp only [firstAt, List.findIdx_append, List.findIdx_lt_length, Frame.mem_groupIds, beq_iff_eq,
    Nat.add_comm]

theorem firstAt_lt_length {frames : List Frame} {id : Bytes} (h : id ∈ groupIds frames) :
    firstAt frames id < frames.length := by
  simpa [firstAt, List.findIdx_lt_length] using Frame.mem_groupIds.mp h

theorem groupIds_sorted (frames : List Frame) :
    (groupIds frames).Pairwise fun a b => firstAt frames a < firstAt frames b := by
  induction frames using List.reverseRecOn with
  | nil => exact .nil
  | append_singleton frames frame ih =>
    have hbefore : (groupIds frames).Pairwise fun a b =>
        firstAt (frames ++ [frame]) a < firstAt (frames ++ [frame]) b := by
      refine ih.imp_of_mem fun ha hb hlt => ?_
      rwa [firstAt_concat, firstAt_concat, if_pos ha, if_pos hb]
    rw [Frame.groupIds_concat]
    split
    · exact hbefore
    · next hnew =>
      refine List.pairwise_append.mpr ⟨hbefore, List.pairwise_singleton _ _, fun a ha b hb => ?_⟩
      have hlt := firstAt_lt_length ha
      rw [List.mem_singleton.mp hb, firstAt_concat, firstAt_concat, if_pos ha, if_neg hnew]
      omega

/-- Entries are found in the order of their first frames. -/
theorem found_sorted (frames : List Frame) :
    (found frames).Pairwise fun a b => firstAt frames a.1 < firstAt frames b.1 := by
  have hgroups := (groupIds_sorted frames).sublist (found_groups_sublist frames)
  rwa [List.pairwise_map] at hgroups

end Assembly
end ParameterLog
