/-
Module: ParameterLog.Proofs.Growth
Purpose: logs that grow by appending entries in one piece.
Main exports: Assembly.found_append_of_disjoint, Assembly.found_of_cut, Assembly.found_frames,
  Frame.Grown, Frame.Grown.cut, Frame.Grown.found_eq
-/
import Mathlib.Data.List.Perm.Subperm
import ParameterLog.Proofs.Reassembly

/-!
A log grows by rows of frames, each the start of an entry under a group that has not been used
before (`Grown`); what it has grown from may be anything. Wherever such a log is cut behind what it
has grown from, the entries before the cut are the first ones of the whole and no frame behind the
cut belongs to a group that is settled (`cut`): only the newest row can be cut, and then it waits.
So a reader that stops anywhere and goes on later finds in turn what a reader of the whole finds
(`found_eq`).
-/

namespace ParameterLog

namespace Assembly

open ParameterLog.Frame (groupIds ofGroup Waiting Open Continues IsStart)

@[simp] theorem found_nil : found [] = [] := rfl

theorem resolve_append_left {xs ys : List Frame} {id : Bytes} (h : id ∉ groupIds ys) :
    resolve (xs ++ ys) id = resolve xs id := by
  simp only [resolve, Frame.ofGroup_append, Frame.ofGroup_eq_nil h, List.append_nil]

theorem resolve_append_right {xs ys : List Frame} {id : Bytes} (h : id ∉ groupIds xs) :
    resolve (xs ++ ys) id = resolve ys id := by
  simp only [resolve, Frame.ofGroup_append, Frame.ofGroup_eq_nil h, List.nil_append]

/-- Frames without common groups hold their entries one after the other. -/
theorem found_append_of_disjoint {xs ys : List Frame}
    (h : ∀ id ∈ groupIds ys, id ∉ groupIds xs) : found (xs ++ ys) = found xs ++ found ys := by
  have hall : ys.filter (fun f => f.group ∉ groupIds xs) = ys := by
    rw [List.filter_eq_self]
    intro f hf
    simpa using h f.group (Frame.mem_groupIds.mpr ⟨f, hf, rfl⟩)
  have hleft : ∀ id ∈ groupIds xs, id ∉ groupIds ys := fun id hid hmem => h id hmem hid
  rw [found, Frame.groupIds_append, hall, List.filterMap_append]
  congr 1
  · apply List.filterMap_congr
    intro id hid
    rw [resolve_append_left (hleft id hid)]
  · apply List.filterMap_congr
    intro id hid
    rw [resolve_append_right (h id hid)]

/-- All frames of one group hold the entry that the group is. -/
theorem found_of_group {group : Bytes} {frames : List Frame} (hne : frames ≠ [])
    (h : ∀ frame ∈ frames, frame.group = group) :
    found frames = ((Resolution.ofGroup group frames).decoded?.map (group, ·)).toList := by
  have hresolve : resolve frames group = Resolution.ofGroup group frames := by
    simp only [resolve, Frame.ofGroup_eq_self h]
  rw [found, Frame.groupIds_of_group hne h, List.filterMap_cons, List.filterMap_nil, hresolve]
  cases (Resolution.ofGroup group frames).decoded? <;> rfl

/-- Some frames of a row, but not all of them, wait in whatever order they stand. -/
theorem incomplete_of_subperm {group : Bytes} {row part : List Frame} (h : IsStart group row)
    (hpart : part.Subperm row) (hne : part ≠ []) (hshort : part.length < row.length) :
    Verdict.ofGroup part = .incomplete := by
  obtain ⟨total, pieces, hpos, hbound, hcount, rfl⟩ := h
  rw [Frame.length_numbered] at hshort
  have htotals : ∀ frame ∈ part, frame.total.toNat = total :=
    fun frame hframe => Frame.total_of_mem_numbered hbound (hpart.subset hframe)
  have hannounced : Verdict.announced part = total := by
    obtain ⟨first, rest, rfl⟩ := List.exists_cons_of_ne_nil hne
    exact htotals first List.mem_cons_self
  have hnodup : (Frame.indices part).Nodup := by
    have hall := Frame.distinct_numbered group total (Nat.le_trans hcount hbound)
    obtain ⟨kept, hperm, hsublist⟩ := hpart
    rw [Frame.nodup_indices_iff, ← (hperm.map _).nodup_iff]
    exact (hsublist.map _).nodup hall
  have hagree : ¬ (part.any fun f => decide (f.total.toNat ≠ total)) = true := by
    simpa using htotals
  have hfew : ¬ total < part.length := by omega
  have hrange : Frame.indices part ≠ List.range total := by
    intro heq
    have hlength := congrArg List.length heq
    rw [Frame.length_indices, List.length_range] at hlength
    omega
  rw [Verdict.ofGroup_eq, hannounced, if_neg (Nat.ne_of_gt hpos), if_neg hagree, if_neg hfew,
    repeats_eq_false_of_nodup hnodup, if_neg Bool.false_ne_true, if_neg hrange]

/-- A row that is cut before its last frame waits. -/
theorem incomplete_of_cut {group : Bytes} {front back : List Frame}
    (h : IsStart group (front ++ back)) (hfront : front ≠ []) (hback : back ≠ []) :
    Verdict.ofGroup front = .incomplete := by
  have hbackPos := List.length_pos_iff.mpr hback
  apply incomplete_of_subperm h (List.sublist_append_left front back).subperm hfront
  rw [List.length_append]
  omega

theorem found_of_cut {group : Bytes} {front back : List Frame}
    (h : IsStart group (front ++ back)) (hback : back ≠ []) : found front = [] := by
  by_cases hfront : front = []
  · simp [hfront]
  · have hgroup : ∀ frame ∈ front, frame.group = group :=
      fun frame hframe => h.group_eq frame (List.mem_append_left _ hframe)
    have hverdict := incomplete_of_cut h hfront hback
    rw [found_of_group hfront hgroup]
    simp [Resolution.ofGroup, hverdict, Resolution.decoded?]

/-- The frames that an entry is cut into hold the entry. -/
theorem found_frames {entry : Entry} {group : Bytes} {frameSize : Nat} {frames : List Frame}
    (h : entry.frames group frameSize = .ok frames) : found frames = [(group, entry)] := by
  obtain ⟨hsize, capacity, hcapacity, rfl⟩ := Entry.frames_eq_numbered h
  have hpositive := (Frame.capacity_eq_ok hcapacity).1
  have hpieces := Bytes.pieces_ne_nil hpositive entry.toBytes_ne_nil
  have hcount : (entry.toBytes.pieces capacity).length ≤ greatestField := by
    have := Bytes.length_pieces_le hpositive entry.toBytes
    rw [Entry.length_toBytes] at this
    simp only [greatestField, greatestEntrySize] at *
    omega
  have hne : Frame.numbered group (entry.toBytes.pieces capacity).length
      (entry.toBytes.pieces capacity) ≠ [] := by
    rw [← List.length_pos_iff, Frame.length_numbered]
    exact List.length_pos_iff.mpr hpieces
  have hverdict := Verdict.ofGroup_numbered group hpieces hcount (Nat.le_refl _)
  rw [if_pos rfl, Bytes.flatten_pieces hpositive] at hverdict
  rw [found_of_group hne fun _ => Frame.group_of_mem_numbered]
  simp [Resolution.ofGroup, hverdict, Entry.decode_toBytes hsize, Resolution.decoded?]

end Assembly

namespace Frame

theorem isStart_of_frames {entry : Entry} {group : Bytes} {frameSize : Nat} {frames : List Frame}
    (h : entry.frames group frameSize = .ok frames) : IsStart group frames ∧ frames ≠ [] := by
  obtain ⟨hsize, capacity, hcapacity, rfl⟩ := Entry.frames_eq_numbered h
  have hpositive := (Frame.capacity_eq_ok hcapacity).1
  have hpieces := Bytes.pieces_ne_nil hpositive entry.toBytes_ne_nil
  have hpos := List.length_pos_iff.mpr hpieces
  have hcount := Bytes.length_pieces_le hpositive entry.toBytes
  rw [Entry.length_toBytes] at hcount
  refine ⟨⟨_, _, hpos, ?_, Nat.le_refl _, rfl⟩, ?_⟩
  · simp only [greatestField, greatestEntrySize] at *
    omega
  · rw [← List.length_pos_iff, length_numbered]
    exact hpos

theorem fits_of_frames {entry : Entry} {group : Bytes} {frameSize : Nat} {frames : List Frame}
    (h : entry.frames group frameSize = .ok frames) (hgroup : group.length ≤ greatestField) :
    ∀ frame ∈ frames, frame.Fits := by
  obtain ⟨hsize, capacity, hcapacity, rfl⟩ := Entry.frames_eq_numbered h
  obtain ⟨hpositive, hbound⟩ := Frame.capacity_eq_ok hcapacity
  intro frame hframe
  obtain ⟨index, hindex, rfl⟩ := List.mem_mapIdx.mp hframe
  refine ⟨hgroup, Nat.le_trans ?_ hbound⟩
  exact Bytes.length_le_of_mem_pieces hpositive (List.getElem_mem _)

/-- The frames of an entry are of its group. -/
theorem groupIds_frames {entry : Entry} {group : Bytes} {frameSize : Nat} {row : List Frame}
    (h : entry.frames group frameSize = .ok row) : groupIds row = [group] := by
  obtain ⟨hstart, hne⟩ := isStart_of_frames h
  exact groupIds_of_group hne hstart.group_eq

/-- What a row of frames can grow to when entries are appended in one piece, each under a group of
its own, and a writer may stop behind any frame. -/
inductive Grown (base : List Frame) : List Frame → Prop where
  | base : Grown base base
  | append {frames row : List Frame} {group : Bytes} (before : Grown base frames)
      (start : IsStart group row) (fresh : group ∉ groupIds frames) : Grown base (frames ++ row)

namespace Grown

variable {base frames : List Frame}

theorem base_prefix (h : Grown base frames) : base <+: frames := by
  induction h with
  | base => exact List.prefix_rfl
  | append before start fresh ih => exact ih.trans (List.prefix_append _ _)

theorem groupIds_row {row : List Frame} {group : Bytes} (start : IsStart group row) :
    ∀ id ∈ groupIds row, id = group := by
  intro id hid
  obtain ⟨frame, hframe, rfl⟩ := mem_groupIds.mp hid
  exact start.group_eq frame hframe

/-- A cut in the newest row: the rest of the row belongs to a group that waits, if it has begun. -/
theorem continues_of_cut {group : Bytes} {front back : List Frame}
    (start : IsStart group (front ++ back)) (fresh : group ∉ groupIds frames) (hback : back ≠ []) :
    Continues (frames ++ front) back := by
  intro frame hframe hbegun
  have hgroup := start.group_eq frame (List.mem_append_right _ hframe)
  have hfront : ∀ f ∈ front, f.group = group :=
    fun f hf => start.group_eq f (List.mem_append_left _ hf)
  rw [hgroup] at hbegun ⊢
  have hof : ofGroup (frames ++ front) group = front := by
    rw [ofGroup_append, ofGroup_eq_nil fresh, ofGroup_eq_self hfront, List.nil_append]
  have hne : front ≠ [] := by
    rintro rfl
    rw [List.append_nil] at hbegun
    exact fresh hbegun
  rw [Waiting, hof]
  exact Assembly.incomplete_of_cut start hne hback

/-- What is found before a cut are the first entries of the whole, and no frame behind the cut
belongs to a group that is settled. -/
theorem cut (h : Grown base frames) {xs ys : List Frame} (heq : frames = xs ++ ys)
    (hbase : base.length ≤ xs.length) :
    Assembly.found xs <+: Assembly.found frames ∧ Continues xs ys := by
  induction h generalizing xs ys with
  | base =>
    have hlength := congrArg List.length heq
    simp only [List.length_append] at hlength
    have hnone : ys = [] := List.eq_nil_of_length_eq_zero (by omega)
    subst hnone
    rw [List.append_nil] at heq
    exact ⟨heq ▸ List.prefix_rfl, fun frame hframe => absurd hframe List.not_mem_nil⟩
  | @append frames row group before start fresh ih =>
    have hdisjoint : ∀ id ∈ groupIds row, id ∉ groupIds frames := by
      intro id hid
      exact groupIds_row start id hid ▸ fresh
    have hfound := Assembly.found_append_of_disjoint hdisjoint
    rcases List.append_eq_append_iff.mp heq with ⟨front, rfl, rfl⟩ | ⟨later, rfl, rfl⟩
    · -- The cut lies in the newest row or behind it.
      have hfront : ∀ id ∈ groupIds front, id ∉ groupIds frames := by
        intro id hid
        obtain ⟨frame, hframe, rfl⟩ := mem_groupIds.mp hid
        exact start.group_eq frame (List.mem_append_left _ hframe) ▸ fresh
      rw [Assembly.found_append_of_disjoint hfront, hfound]
      by_cases hback : ys = []
      · subst hback
        rw [List.append_nil]
        exact ⟨List.prefix_rfl, fun frame hframe => absurd hframe List.not_mem_nil⟩
      · rw [Assembly.found_of_cut start hback, List.append_nil]
        exact ⟨List.prefix_append _ _, continues_of_cut start fresh hback⟩
    · -- The cut lies before the newest row.
      obtain ⟨hinitial, hcontinues⟩ := ih rfl hbase
      rw [hfound]
      refine ⟨hinitial.trans (List.prefix_append _ _), fun frame hframe => ?_⟩
      rcases List.mem_append.mp hframe with hframe | hframe
      · exact hcontinues frame hframe
      · intro hbegun
        have hgroup := start.group_eq frame hframe
        have hmem : group ∈ groupIds (xs ++ later) := by
          obtain ⟨f, hf, hfgroup⟩ := mem_groupIds.mp hbegun
          exact mem_groupIds.mpr ⟨f, List.mem_append_left _ hf, hfgroup.trans hgroup⟩
        exact absurd hmem fresh

/-- Any two cuts of a log that has grown by contiguous appends. -/
theorem found_eq (h : Grown base frames) {xs ys zs : List Frame} (heq : frames = xs ++ ys ++ zs)
    (hbase : base.length ≤ xs.length) :
    Continues xs ys ∧ Assembly.found (xs ++ ys) =
      Assembly.found xs ++ Assembly.found ((Assembly.ofFrames xs).remaining ++ ys) := by
  have hlonger : base.length ≤ (xs ++ ys).length := by
    rw [List.length_append]
    omega
  have hshort := h.cut (heq.trans (List.append_assoc ..)) hbase
  have hlong := h.cut heq hlonger
  have hcontinues : Continues xs ys :=
    fun frame hframe => hshort.2 frame (List.mem_append_left _ hframe)
  have hinitial : Assembly.found xs <+: Assembly.found (xs ++ ys) := by
    apply List.prefix_of_prefix_length_le hshort.1 hlong.1
    rw [Assembly.found_append_left hcontinues]
    exact List.length_filter_le _ _
  exact ⟨hcontinues, Assembly.found_append_of_prefix hcontinues hinitial⟩

end Grown
end Frame
end ParameterLog
