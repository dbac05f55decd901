/-
Module: ParameterLog.Proofs.GroupVerdict
Purpose: what a group of frames amounts to does not depend on the order of its frames.
Main exports: Frame.byIndex_perm, Verdict.ofGroup_perm, Frame.byIndex_eq_of_perm,
  Verdict.of_incomplete, Verdict.ofGroup_numbered
-/
import Mathlib.Data.List.Nodup
import ParameterLog.Assembly
import ParameterLog.Proofs.Splitting

/-!
The frames that a reader keeps waiting are put in the order of their indices before the rest of
their group arrives, so a group is judged in another order than the one it stands in. The verdict
takes no notice of that as long as the first frame announces the same number (`ofGroup_perm`): all
that it looks at besides are the numbers announced, the count and the sorted indices.

The start of an entry waits until it is whole (`ofGroup_numbered`).
-/

namespace ParameterLog

/-- No two neighbours in a list without repetitions are equal. -/
theorem repeats_eq_false_of_nodup {indices : List Nat} (h : indices.Nodup) :
    repeats indices = false := by
  fun_induction repeats indices with
  | case1 a b rest ih =>
    have hne : a ≠ b := by
      intro heq
      subst heq
      simp at h
    simp [hne, ih (List.nodup_cons.mp h).2]
  | case2 => rfl

/-- Sorted numbers without equal neighbours are without repetitions. -/
theorem nodup_of_repeats_eq_false {indices : List Nat} (hsorted : indices.Pairwise (· ≤ ·))
    (h : repeats indices = false) : indices.Nodup := by
  have hstrict : indices.Pairwise (· < ·) := by
    fun_induction repeats indices with
    | case1 a b rest ih =>
      simp only [Bool.or_eq_false_iff, beq_eq_false_iff_ne] at h
      obtain ⟨hfirst, hrest⟩ := List.pairwise_cons.mp hsorted
      have htail := ih hrest h.2
      refine List.pairwise_cons.mpr ⟨fun c hc => ?_, htail⟩
      have hab : a < b := Nat.lt_of_le_of_ne (hfirst b List.mem_cons_self) h.1
      rcases List.mem_cons.mp hc with rfl | hc
      · exact hab
      · exact Nat.lt_trans hab ((List.pairwise_cons.mp htail).1 c hc)
    | case2 indices hshort =>
      match indices, hshort with
      | [], _ => exact List.Pairwise.nil
      | [a], _ => exact List.pairwise_singleton _ a
      | a :: b :: rest, hshort => exact absurd rfl (hshort a b rest)
  exact hstrict.imp fun hlt => Nat.ne_of_lt hlt

namespace Frame

theorem byIndex_perm (frames : List Frame) : (byIndex frames).Perm frames :=
  List.mergeSort_perm _ _

theorem byIndex_sorted (frames : List Frame) :
    (byIndex frames).Pairwise fun a b => a.index ≤ b.index := by
  have htrans (a b c : Frame) (hab : decide (a.index ≤ b.index) = true)
      (hbc : decide (b.index ≤ c.index) = true) : decide (a.index ≤ c.index) = true := by
    simp only [decide_eq_true_eq] at *
    exact UInt16.le_trans hab hbc
  have htotal (a b : Frame) :
      (decide (a.index ≤ b.index) || decide (b.index ≤ a.index)) = true := by
    simpa [Bool.or_eq_true, decide_eq_true_eq] using UInt16.le_total a.index b.index
  exact (List.pairwise_mergeSort htrans htotal frames).imp fun h => by simpa using h

theorem byIndex_of_sorted {frames : List Frame}
    (h : frames.Pairwise fun a b => a.index ≤ b.index) : byIndex frames = frames :=
  List.mergeSort_of_pairwise (h.imp fun hle => by simpa using hle)

/-- The indices of frames in the order of the sorted frames. -/
def indices (frames : List Frame) : List Nat := (byIndex frames).map (·.index.toNat)

theorem indices_sorted (frames : List Frame) : (indices frames).Pairwise (· ≤ ·) :=
  List.pairwise_map.mpr <| (byIndex_sorted frames).imp fun h => UInt16.le_iff_toNat_le.mp h

theorem indices_perm {xs ys : List Frame} (h : xs.Perm ys) : indices xs = indices ys := by
  have hperm : (indices xs).Perm (indices ys) :=
    (((byIndex_perm xs).trans h).trans (byIndex_perm ys).symm).map _
  exact hperm.eq_of_pairwise (fun _ _ _ _ => Nat.le_antisymm) (indices_sorted xs)
    (indices_sorted ys)

theorem length_indices (frames : List Frame) : (indices frames).length = frames.length := by
  rw [indices, List.length_map, (byIndex_perm frames).length_eq]

/-- The indices of frames are without repetitions in whatever order the frames stand. -/
theorem nodup_indices_iff (frames : List Frame) :
    (indices frames).Nodup ↔ (frames.map (·.index.toNat)).Nodup :=
  ((byIndex_perm frames).map _).nodup_iff

/-- Frames with different indices have one order. -/
theorem byIndex_eq_of_perm {xs ys : List Frame} (h : xs.Perm ys) (hnodup : (indices xs).Nodup) :
    byIndex xs = byIndex ys := by
  have hperm : (byIndex xs).Perm (byIndex ys) :=
    ((byIndex_perm xs).trans h).trans (byIndex_perm ys).symm
  refine hperm.eq_of_pairwise (fun a b ha hb hab hba => ?_) (byIndex_sorted xs) (byIndex_sorted ys)
  have hindex : a.index.toNat = b.index.toNat :=
    Nat.le_antisymm (UInt16.le_iff_toNat_le.mp hab) (UInt16.le_iff_toNat_le.mp hba)
  exact List.inj_on_of_nodup_map hnodup ha (hperm.mem_iff.mpr hb) hindex

end Frame

namespace Verdict

open ParameterLog.Frame (byIndex indices)

/-- The number of frames that the first frame announces. -/
def announced (group : List Frame) : Nat := (group.head?.map (·.total.toNat)).getD 0

theorem ofGroup_eq (group : List Frame) :
    ofGroup group =
      if announced group = 0 then .contradictory .zeroTotal
      else if group.any (·.total.toNat ≠ announced group) then .contradictory .totalsDisagree
      else if announced group < group.length then .contradictory .tooManyFrames
      else if repeats (indices group) then .contradictory .repeatedIndex
      else if indices group = List.range (announced group) then
        .complete ((byIndex group).flatMap (·.data))
      else .incomplete := rfl

/-- A complete group holds the data of its frames. -/
theorem data_of_complete {group : List Frame} {bytes : Bytes}
    (h : ofGroup group = .complete bytes) : bytes = (byIndex group).flatMap (·.data) := by
  rw [ofGroup_eq] at h
  repeat' split at h
  all_goals simp at h
  exact h.symm

/-- The verdict is the same for any order that keeps the number announced first. -/
theorem ofGroup_perm {xs ys : List Frame} (h : xs.Perm ys) (hfirst : announced xs = announced ys) :
    ofGroup xs = ofGroup ys := by
  have hany : (xs.any fun f => decide (f.total.toNat ≠ announced xs)) =
      ys.any fun f => decide (f.total.toNat ≠ announced ys) := by
    rw [hfirst, Bool.eq_iff_iff, List.any_eq_true, List.any_eq_true]
    simp only [h.mem_iff]
  have hindices := Frame.indices_perm h
  rw [ofGroup_eq, ofGroup_eq, hany, hfirst, h.length_eq, hindices]
  by_cases hrange : indices ys = List.range (announced ys)
  · have hnodup : (indices xs).Nodup := by
      rw [hindices, hrange]
      exact List.nodup_range
    rw [Frame.byIndex_eq_of_perm h hnodup]
  · simp only [hrange, if_false]

/-- What is known of a group that waits for more frames. -/
structure Waits (group : List Frame) : Prop where
  nonempty : group ≠ []
  totals : ∀ frame ∈ group, frame.total.toNat = announced group
  nodup : (indices group).Nodup

theorem of_incomplete {group : List Frame} (h : ofGroup group = .incomplete) : Waits group := by
  rw [ofGroup_eq] at h
  split at h
  · simp at h
  · next hpos =>
    split at h
    · simp at h
    · next htotals =>
      split at h
      · simp at h
      · split at h
        · simp at h
        · next hrepeats =>
          refine ⟨?_, ?_, ?_⟩
          · intro hempty
            simp [hempty, announced] at hpos
          · simpa using htotals
          · exact nodup_of_repeats_eq_false (Frame.indices_sorted group) (by simpa using hrepeats)

/-- Sorting a waiting group changes nothing about the group with more frames. -/
theorem ofGroup_byIndex_append {group : List Frame} (h : ofGroup group = .incomplete)
    (more : List Frame) : ofGroup (byIndex group ++ more) = ofGroup (group ++ more) := by
  have hwaits := of_incomplete h
  have hperm := Frame.byIndex_perm group
  apply ofGroup_perm (hperm.append_right more)
  obtain ⟨first, rest, hgroup⟩ := List.exists_cons_of_ne_nil hwaits.nonempty
  have hsorted : byIndex group ≠ [] := by
    intro hempty
    rw [hempty] at hperm
    exact hwaits.nonempty hperm.symm.eq_nil
  obtain ⟨first', rest', hsorted⟩ := List.exists_cons_of_ne_nil hsorted
  have hfirst := hwaits.totals first (by simp [hgroup])
  have hfirst' := hwaits.totals first' (hperm.mem_iff.mp (by simp [hsorted]))
  have hleft : announced (byIndex group ++ more) = first'.total.toNat := by
    simp [announced, hsorted]
  have hright : announced (group ++ more) = first.total.toNat := by
    simp [announced, hgroup]
  rw [hleft, hright, hfirst, hfirst']

end Verdict

namespace Frame

theorem numbered_sorted (group : Bytes) (total : Nat) {pieces : List Bytes}
    (h : pieces.length ≤ greatestField) :
    (numbered group total pieces).Pairwise fun a b => a.index ≤ b.index := by
  apply List.pairwise_iff_getElem.mpr
  intro i j hi hj hij
  simp only [numbered, List.getElem_mapIdx, UInt16.le_iff_toNat_le, UInt16.toNat_ofNat']
  simp only [length_numbered, greatestField] at *
  omega

theorem indices_numbered (group : Bytes) (total : Nat) {pieces : List Bytes}
    (h : pieces.length ≤ greatestField) :
    indices (numbered group total pieces) = List.range pieces.length := by
  rw [indices, byIndex_of_sorted (numbered_sorted group total h), map_index_numbered group total h]

theorem distinct_numbered (group : Bytes) (total : Nat) {pieces : List Bytes}
    (h : pieces.length ≤ greatestField) :
    ((numbered group total pieces).map (·.index.toNat)).Nodup := by
  rw [← nodup_indices_iff, indices_numbered group total h]
  exact List.nodup_range

/-- The frames of a start have different indices. -/
theorem IsStart.distinct {group : Bytes} {frames : List Frame} (h : IsStart group frames) :
    (frames.map (·.index.toNat)).Nodup := by
  obtain ⟨total, pieces, -, hbound, hcount, rfl⟩ := h
  exact distinct_numbered group total (Nat.le_trans hcount hbound)

theorem total_of_mem_numbered {group : Bytes} {total : Nat} {pieces : List Bytes} {frame : Frame}
    (hbound : total ≤ greatestField) (h : frame ∈ numbered group total pieces) :
    frame.total.toNat = total := by
  obtain ⟨index, hindex, rfl⟩ := List.mem_mapIdx.mp h
  simp only [UInt16.toNat_ofNat', greatestField] at *
  omega

theorem flatMap_data_numbered (group : Bytes) (total : Nat) (pieces : List Bytes) :
    (numbered group total pieces).flatMap (·.data) = pieces.flatten := by
  rw [List.flatMap, map_data_numbered]

end Frame

/-- The start of an entry is complete with its last frame and waits before that. -/
theorem Verdict.ofGroup_numbered (group : Bytes) {total : Nat} {pieces : List Bytes}
    (hpieces : pieces ≠ []) (hbound : total ≤ greatestField) (hcount : pieces.length ≤ total) :
    Verdict.ofGroup (Frame.numbered group total pieces) =
      if pieces.length = total then .complete pieces.flatten else .incomplete := by
  have hpos := List.length_pos_iff.mpr hpieces
  have htotals : ∀ frame ∈ Frame.numbered group total pieces, frame.total.toNat = total :=
    fun frame => Frame.total_of_mem_numbered hbound
  have hannounced : announced (Frame.numbered group total pieces) = total := by
    obtain ⟨first, rest, rfl⟩ := List.exists_cons_of_ne_nil hpieces
    rw [Frame.numbered, List.mapIdx_cons] at htotals ⊢
    exact htotals _ List.mem_cons_self
  have hfit := Nat.le_trans hcount hbound
  have hindices := Frame.indices_numbered group total hfit
  have hsorted := Frame.byIndex_of_sorted (Frame.numbered_sorted group total hfit)
  have hagree : ¬ ((Frame.numbered group total pieces).any fun f =>
      decide (f.total.toNat ≠ total)) = true := by
    simpa using htotals
  have hrepeats : repeats (List.range pieces.length) = false :=
    repeats_eq_false_of_nodup List.nodup_range
  have hzero : total ≠ 0 := by omega
  have hfew : ¬ total < pieces.length := Nat.not_lt.mpr hcount
  rw [ofGroup_eq, hannounced, if_neg hzero, if_neg hagree, Frame.length_numbered, if_neg hfew,
    hindices, hrepeats, hsorted, Frame.flatMap_data_numbered]
  by_cases hall : pieces.length = total
  · simp [hall]
  · have hrange : List.range pieces.length ≠ List.range total := by
      intro heq
      exact hall (by simpa using congrArg List.length heq)
    simp [hall, hrange]

end ParameterLog
