/-
Module: ParameterLog.Proofs.PendingGroups
Purpose: which groups of frames are kept waiting, and which of them can still become complete.
Main exports: Frame.Whole, Frame.Completable, Frame.Consistent, Frame.Stranded,
  Frame.completable_iff, Verdict.ofGroup_eq_incomplete_iff, Assembly.kept_iff,
  Assembly.keeps_completable_iff, Frame.Before, Assembly.remaining_sorted
-/
import ParameterLog.Proofs.CompleteGroups

/-!
A group is whole if its frames announce one positive number and have the indices below it, each
once; it is completable if some further frames make it whole. Frames are kept for groups that are
not whole and of which three things are known (`Consistent`): they announce one positive number,
there are not more of them, and no index comes twice. That falls short of being completable by one
thing, that the indices lie below the number announced (`completable_iff`). A group with an index
that does not is stranded: it is kept although no frames can make it whole. These are the only
groups that are kept in vain (`keeps_completable_iff`).

The frames that are kept stand group by group, in the order in which the groups have begun, and
within a group by their indices (`remaining_sorted`).
-/

namespace ParameterLog

namespace Frame

/-- The frames announce one positive number and have the indices below it, each once. -/
def Whole (group : List Frame) : Prop :=
  ∃ total, 0 < total ∧ (∀ frame ∈ group, frame.total.toNat = total) ∧
    (group.map (·.index.toNat)).Perm (List.range total)

/-- Some further frames with the identifier make the group whole. -/
def Completable (id : Bytes) (group : List Frame) : Prop :=
  ∃ more : List Frame, (∀ frame ∈ more, frame.group = id) ∧ Whole (group ++ more)

/-- The frames announce one positive number, there are not more of them, and no index comes
twice. -/
structure Consistent (total : Nat) (group : List Frame) : Prop where
  positive : 0 < total
  totals : ∀ frame ∈ group, frame.total.toNat = total
  few : group.length ≤ total
  distinct : (group.map (·.index.toNat)).Nodup

/-- The frames are consistent, but some index is not below the number that they announce. -/
def Stranded (group : List Frame) : Prop :=
  ∃ total, Consistent total group ∧ ∃ frame ∈ group, total ≤ frame.index.toNat

variable {group : List Frame} {id : Bytes} {total : Nat}

theorem Whole.ne_nil (h : Whole group) : group ≠ [] := by
  rintro rfl
  obtain ⟨total, hpositive, -, hperm⟩ := h
  have hlength := hperm.length_eq
  simp only [List.map_nil, List.length_nil, List.length_range] at hlength
  omega

/-- The frames of a whole group and of any part of it are consistent, and their indices lie below
the number that they announce. -/
theorem Whole.consistent_left {more : List Frame} (h : Whole (group ++ more)) :
    ∃ total, Consistent total group ∧ ∀ frame ∈ group, frame.index.toNat < total := by
  obtain ⟨total, hpositive, htotals, hperm⟩ := h
  have hlength := hperm.length_eq
  simp only [List.length_map, List.length_append, List.length_range] at hlength
  have hdistinct := hperm.nodup_iff.mpr List.nodup_range
  rw [List.map_append] at hperm hdistinct
  refine ⟨total, ⟨hpositive, fun frame hframe => htotals frame (List.mem_append_left _ hframe),
    by omega, (List.nodup_append.mp hdistinct).1⟩, fun frame hframe => ?_⟩
  exact List.mem_range.mp (hperm.subset (List.mem_append_left _ (List.mem_map_of_mem hframe)))

/-! ### Completing a group -/

/-- Frames without data for the indices that a group lacks. -/
def missing (id : Bytes) (total : Nat) (group : List Frame) : List Frame :=
  ((List.range total).filter (· ∉ group.map (·.index.toNat))).map fun index =>
    ⟨UInt16.ofNat total, UInt16.ofNat index, id, []⟩

theorem group_of_mem_missing {frame : Frame} (h : frame ∈ missing id total group) :
    frame.group = id := by
  obtain ⟨index, -, rfl⟩ := List.mem_map.mp h
  rfl

theorem total_of_mem_missing (hbound : total ≤ greatestField) {frame : Frame}
    (h : frame ∈ missing id total group) : frame.total.toNat = total := by
  obtain ⟨index, -, rfl⟩ := List.mem_map.mp h
  simp only [UInt16.toNat_ofNat', greatestField] at *
  omega

theorem indices_missing (hbound : total ≤ greatestField) :
    (missing id total group).map (·.index.toNat) =
      (List.range total).filter (· ∉ group.map (·.index.toNat)) := by
  rw [missing, List.map_map]
  refine (List.map_congr_left fun index hindex => ?_).trans (List.map_id _)
  have hlt := List.mem_range.mp (List.mem_filter.mp hindex).1
  simp only [Function.comp_apply, UInt16.toNat_ofNat', id_eq, greatestField] at *
  omega

/-- Different numbers below a bound and those that they leave out are all numbers below it. -/
theorem perm_range_of_left_out {numbers : List Nat} (hdistinct : numbers.Nodup)
    (hbelow : ∀ n ∈ numbers, n < total) :
    (numbers ++ (List.range total).filter (· ∉ numbers)).Perm (List.range total) := by
  have hrest : ((List.range total).filter (· ∉ numbers)).Nodup := List.nodup_range.filter _
  have hall : (numbers ++ (List.range total).filter (· ∉ numbers)).Nodup := by
    refine List.nodup_append.mpr ⟨hdistinct, hrest, ?_⟩
    rintro n hn _ hother rfl
    exact absurd hn (of_decide_eq_true (List.mem_filter.mp hother).2)
  refine (List.perm_ext_iff_of_nodup hall List.nodup_range).mpr fun n => ?_
  rw [List.mem_append, List.mem_filter, List.mem_range, decide_eq_true_eq]
  constructor
  · rintro (hn | ⟨hlt, -⟩)
    · exact hbelow n hn
    · exact hlt
  · intro hlt
    by_cases hn : n ∈ numbers
    · exact .inl hn
    · exact .inr ⟨hlt, hn⟩

/-- Consistent frames whose indices lie below the number announced become whole with the frames for
the other indices. -/
theorem Consistent.whole_append_missing (h : Consistent total group)
    (hbelow : ∀ frame ∈ group, frame.index.toNat < total) (hbound : total ≤ greatestField) :
    Whole (group ++ missing id total group) := by
  refine ⟨total, h.positive, fun frame hframe => ?_, ?_⟩
  · rcases List.mem_append.mp hframe with hframe | hframe
    · exact h.totals frame hframe
    · exact total_of_mem_missing hbound hframe
  · rw [List.map_append, indices_missing hbound]
    apply perm_range_of_left_out h.distinct
    intro index hindex
    obtain ⟨frame, hframe, rfl⟩ := List.mem_map.mp hindex
    exact hbelow frame hframe

/-- A group that has begun can still become whole if its frames are consistent and their indices
lie below the number that they announce. -/
theorem completable_iff (hne : group ≠ []) :
    Completable id group ↔
      ∃ total, Consistent total group ∧ ∀ frame ∈ group, frame.index.toNat < total := by
  constructor
  · rintro ⟨more, -, hwhole⟩
    exact hwhole.consistent_left
  · rintro ⟨total, hconsistent, hbelow⟩
    -- Some frame announces the number, so it fits the field of the frames that are missing.
    have hbound : total ≤ greatestField := by
      obtain ⟨first, rest, rfl⟩ := List.exists_cons_of_ne_nil hne
      have hfirst := hconsistent.totals first List.mem_cons_self
      have hlt := first.total.toNat_lt
      simp only [greatestField]
      omega
    exact ⟨missing id total group, fun frame => group_of_mem_missing,
      hconsistent.whole_append_missing hbelow hbound⟩

/-- A stranded group does not become whole whatever frames come. -/
theorem Stranded.not_whole_append (h : Stranded group) (more : List Frame) :
    ¬ Whole (group ++ more) := by
  obtain ⟨total, hconsistent, frame, hframe, hhigh⟩ := h
  intro hwhole
  obtain ⟨other, hother, hbelow⟩ := hwhole.consistent_left
  have hsame : total = other := by
    rw [← hconsistent.totals frame hframe, hother.totals frame hframe]
  have hlt := hbelow frame hframe
  omega

/-- Consistent frames are completable or stranded. -/
theorem Consistent.completable (h : Consistent total group) (hne : group ≠ [])
    (hnot : ¬ Stranded group) : Completable id group := by
  refine (completable_iff hne).mpr ⟨total, h, fun frame hframe => ?_⟩
  by_contra hhigh
  exact hnot ⟨total, h, frame, hframe, Nat.not_lt.mp hhigh⟩

theorem indices_eq_range_iff :
    indices group = List.range total ↔
      (group.map (·.index.toNat)).Perm (List.range total) := by
  have hperm : (indices group).Perm (group.map (·.index.toNat)) := (byIndex_perm group).map _
  constructor
  · intro h
    exact hperm.symm.trans (.of_eq h)
  · intro h
    exact (hperm.trans h).eq_of_pairwise (fun _ _ _ _ => Nat.le_antisymm) (indices_sorted group)
      List.pairwise_le_range

end Frame

/-! ### What is kept -/

namespace Verdict

open ParameterLog.Frame (byIndex indices Whole Consistent)

variable {group : List Frame} {total : Nat}

/-- Consistent frames are a whole group, which is complete, or wait. -/
theorem ofGroup_of_consistent (hne : group ≠ []) (h : Consistent total group) :
    ofGroup group =
      if indices group = List.range total then .complete ((byIndex group).flatMap (·.data))
      else .incomplete := by
  have hannounced := announced_of_totals hne h.totals
  have hagree : ¬ (group.any fun f => decide (f.total.toNat ≠ total)) = true := by
    simpa using h.totals
  have hdistinct := repeats_eq_false_of_nodup ((Frame.nodup_indices_iff group).mpr h.distinct)
  rw [ofGroup_eq, hannounced, if_neg (Nat.ne_of_gt h.positive), if_neg hagree,
    if_neg (Nat.not_lt.mpr h.few), hdistinct, if_neg Bool.false_ne_true]

/-- Frames that are not consistent are dropped. -/
theorem ofGroup_of_not_consistent (h : ∀ total, ¬ Consistent total group) :
    ∃ reason, ofGroup group = .contradictory reason := by
  rw [ofGroup_eq]
  split
  · exact ⟨_, rfl⟩
  · next hpositive =>
    split
    · exact ⟨_, rfl⟩
    · next htotals =>
      split
      · exact ⟨_, rfl⟩
      · next hfew =>
        split
        · exact ⟨_, rfl⟩
        · next hrepeats =>
          have hdistinct := nodup_of_repeats_eq_false (Frame.indices_sorted group)
            (by simpa using hrepeats)
          exact absurd ⟨Nat.pos_of_ne_zero hpositive, by simpa using htotals,
            Nat.not_lt.mp hfew, (Frame.nodup_indices_iff group).mp hdistinct⟩ (h _)

/-- A group waits if its frames are consistent and not whole. -/
theorem ofGroup_eq_incomplete_iff (hne : group ≠ []) :
    ofGroup group = .incomplete ↔ (∃ total, Consistent total group) ∧ ¬ Whole group := by
  by_cases hconsistent : ∃ total, Consistent total group
  · have htotal := hconsistent
    obtain ⟨total, htotal⟩ := htotal
    have hwhole : Whole group ↔ indices group = List.range total := by
      rw [Frame.indices_eq_range_iff]
      constructor
      · rintro ⟨other, -, hother, hperm⟩
        have hsame : total = other :=
          (announced_of_totals hne htotal.totals).symm.trans (announced_of_totals hne hother)
        rwa [hsame]
      · exact fun hperm => ⟨total, htotal.positive, htotal.totals, hperm⟩
    rw [ofGroup_of_consistent hne htotal, hwhole]
    by_cases hrange : indices group = List.range total <;> simp [hrange, hconsistent]
  · obtain ⟨reason, hreason⟩ := ofGroup_of_not_consistent (not_exists.mp hconsistent)
    simp [hreason, hconsistent]

end Verdict

namespace Assembly

open ParameterLog.Frame (groupIds ofGroup Whole Completable Consistent Stranded)

variable {frames : List Frame} {id : Bytes}

/-- Frames are kept for a group that has begun, is consistent and is not whole. -/
theorem kept_iff :
    id ∈ groupIds (ofFrames frames).remaining ↔
      id ∈ groupIds frames ∧ (∃ total, Consistent total (ofGroup frames id)) ∧
        ¬ Whole (ofGroup frames id) := by
  rw [groupIds_remaining, List.mem_filter, decide_eq_true_eq]
  refine and_congr_right fun hid => ?_
  exact Verdict.ofGroup_eq_incomplete_iff (Frame.ofGroup_ne_nil hid)

/-- The groups that are kept in vain are the stranded ones. -/
theorem kept_in_vain_iff :
    id ∈ groupIds (ofFrames frames).remaining ∧ ¬ Completable id (ofGroup frames id) ↔
      Stranded (ofGroup frames id) := by
  constructor
  · rintro ⟨hkept, hnot⟩
    obtain ⟨hid, ⟨total, hconsistent⟩, -⟩ := kept_iff.mp hkept
    by_contra hstranded
    exact hnot (hconsistent.completable (Frame.ofGroup_ne_nil hid) hstranded)
  · intro h
    have hnever := h.not_whole_append
    obtain ⟨total, hconsistent, frame, hframe, -⟩ := h
    have hid : id ∈ groupIds frames :=
      Frame.mem_groupIds.mpr ⟨frame, Frame.mem_ofGroup.mp hframe⟩
    have hnow := hnever []
    rw [List.append_nil] at hnow
    refine ⟨kept_iff.mpr ⟨hid, ⟨total, hconsistent⟩, hnow⟩, ?_⟩
    rintro ⟨more, -, hwhole⟩
    exact hnever more hwhole

/-- A group that cannot become whole is dropped unless it is stranded. -/
theorem dropped_of_not_completable (hid : id ∈ groupIds frames)
    (hnot : ¬ Completable id (ofGroup frames id)) (hstranded : ¬ Stranded (ofGroup frames id)) :
    ∃ report, resolve frames id = .dropped report := by
  have hinconsistent : ∀ total, ¬ Consistent total (ofGroup frames id) :=
    fun total h => hnot (h.completable (Frame.ofGroup_ne_nil hid) hstranded)
  obtain ⟨reason, hreason⟩ := Verdict.ofGroup_of_not_consistent hinconsistent
  exact ⟨.inconsistentGroup id reason.message, by rw [resolve, Resolution.ofGroup, hreason]⟩

/-- Only groups that can still become whole are kept, and those that cannot are dropped. -/
structure KeepsCompletable (frames : List Frame) : Prop where
  kept : ∀ id ∈ groupIds (ofFrames frames).remaining, Completable id (ofGroup frames id)
  dropped : ∀ id ∈ groupIds frames, ¬ Completable id (ofGroup frames id) →
    ∃ report, resolve frames id = .dropped report

/-- Only groups that can still become whole are kept if and only if no group is stranded. -/
theorem keeps_completable_iff (frames : List Frame) :
    KeepsCompletable frames ↔ ∀ id ∈ groupIds frames, ¬ Stranded (ofGroup frames id) := by
  constructor
  · rintro h id - hstranded
    obtain ⟨hkept, hnot⟩ := kept_in_vain_iff.mpr hstranded
    exact hnot (h.kept id hkept)
  · intro h
    refine ⟨fun id hkept => ?_, fun id hid hnot => dropped_of_not_completable hid hnot (h id hid)⟩
    by_contra hnot
    exact h id (kept_iff.mp hkept).1 (kept_in_vain_iff.mp ⟨hkept, hnot⟩)

/-- A frame that announces that it is the only one, and that it is the sixth. -/
def sixthOfOne : Frame := ⟨1, 5, [1], []⟩

/-- A frame whose index is not below the number that it announces is kept, although nothing can
make its group whole. -/
theorem keeps_sixth_of_one : ¬ KeepsCompletable [sixthOfOne] := by
  have hstranded : Stranded (ofGroup [sixthOfOne] [1]) := by
    have hgroup : ofGroup [sixthOfOne] [1] = [sixthOfOne] := by decide
    rw [hgroup]
    exact ⟨1, ⟨by decide, by decide, by decide, by decide⟩, sixthOfOne, by decide, by decide⟩
  intro h
  obtain ⟨hkept, hnot⟩ := kept_in_vain_iff.mpr hstranded
  exact hnot (h.kept [1] hkept)

end Assembly

/-! ### The order of what is kept -/

namespace Frame

/-- One frame stands before another one: its group has begun before, or they are of one group and
it has the lower index. -/
def Before (frames : List Frame) (a b : Frame) : Prop :=
  firstAt frames a.group < firstAt frames b.group ∨ a.group = b.group ∧ a.index < b.index

/-- Frames with different indices are sorted strictly. -/
theorem byIndex_strictly_sorted {group : List Frame} (h : (indices group).Nodup) :
    (byIndex group).Pairwise fun a b => a.index < b.index := by
  refine ((byIndex_sorted group).and (List.pairwise_map.mp h)).imp fun ⟨hle, hne⟩ => ?_
  rw [UInt16.lt_iff_toNat_lt]
  rw [UInt16.le_iff_toNat_le] at hle
  omega

end Frame

/-- The frames that are kept are sorted by their groups, in the order in which these have begun,
and then by their indices. -/
theorem Assembly.remaining_sorted (frames : List Frame) :
    (ofFrames frames).remaining.Pairwise (Frame.Before frames) := by
  rw [remaining_ofFrames, List.pairwise_flatMap]
  constructor
  · intro id _
    rw [frames_resolve]
    split
    · next hwaiting =>
      have hgroup : ∀ frame ∈ Frame.byIndex (Frame.ofGroup frames id), frame.group = id :=
        fun frame hframe =>
          (Frame.mem_ofGroup.mp ((Frame.byIndex_perm _).mem_iff.mp hframe)).2
      refine (Frame.byIndex_strictly_sorted (Verdict.of_incomplete hwaiting).nodup).imp_of_mem ?_
      exact fun ha hb hlt => .inr ⟨(hgroup _ ha).trans (hgroup _ hb).symm, hlt⟩
    · exact .nil
  · refine (groupIds_sorted frames).imp fun hlt x hx y hy => .inl ?_
    rwa [group_of_mem_kept hx, group_of_mem_kept hy]

end ParameterLog
