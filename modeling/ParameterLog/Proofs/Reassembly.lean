/-
Module: ParameterLog.Proofs.Reassembly
Purpose: putting frames together in several passes and in one.
Main exports: Frame.ofGroup_blocks, Frame.Waiting, Frame.Open, Frame.Continues, Frame.Cuttable,
  Assembly.found, Assembly.remaining_append, Assembly.found_append_left,
  Assembly.found_append_right, Assembly.found_append_perm, Assembly.found_append_of_prefix
-/
import ParameterLog.Proofs.GroupVerdict

/-!
A reader puts frames together as they come in: it keeps the frames of the groups that wait and puts
them in front of the next ones. The entries are told apart by their groups here (`found`). As long
as no frame comes for a group that is settled, that is given out or dropped (`Continues`), two
passes leave the frames that one pass leaves (`remaining_append`), and each entry of the one pass is
found in exactly one of the two: in the first if its group was settled then, else in the second,
both times in the order of the one pass (`found_append_left`, `found_append_right`). If all that the
first pass finds comes first, the passes find in turn what one pass finds
(`found_append_of_prefix`).
-/

namespace ParameterLog

namespace Frame

theorem mem_groupIds {frames : List Frame} {id : Bytes} :
    id ∈ groupIds frames ↔ ∃ frame ∈ frames, frame.group = id := by
  simp [groupIds]

theorem mem_groupIds_append {xs ys : List Frame} {id : Bytes} :
    id ∈ groupIds (xs ++ ys) ↔ id ∈ groupIds xs ∨ id ∈ groupIds ys := by
  simp only [mem_groupIds, List.mem_append, or_and_right, exists_or]

theorem mem_ofGroup {frames : List Frame} {id : Bytes} {frame : Frame} :
    frame ∈ ofGroup frames id ↔ frame ∈ frames ∧ frame.group = id := by
  simp [ofGroup]

theorem ofGroup_append (xs ys : List Frame) (id : Bytes) :
    ofGroup (xs ++ ys) id = ofGroup xs id ++ ofGroup ys id := by
  simp [ofGroup]

theorem ofGroup_eq_nil {frames : List Frame} {id : Bytes} (h : id ∉ groupIds frames) :
    ofGroup frames id = [] := by
  rw [mem_groupIds] at h
  simp only [ofGroup, List.filter_eq_nil_iff, beq_iff_eq]
  exact fun frame hframe hgroup => h ⟨frame, hframe, hgroup⟩

theorem ofGroup_ne_nil {frames : List Frame} {id : Bytes} (h : id ∈ groupIds frames) :
    ofGroup frames id ≠ [] := by
  obtain ⟨frame, hframe, hgroup⟩ := mem_groupIds.mp h
  exact List.ne_nil_of_mem (mem_ofGroup.mpr ⟨hframe, hgroup⟩)

theorem ofGroup_eq_self {frames : List Frame} {id : Bytes}
    (h : ∀ frame ∈ frames, frame.group = id) : ofGroup frames id = frames := by
  simpa [ofGroup] using h

theorem groupIds_append (xs ys : List Frame) :
    groupIds (xs ++ ys) = groupIds xs ++ groupIds (ys.filter fun f => f.group ∉ groupIds xs) := by
  have hnew : (ys.map (·.group)).removeAll (xs.map (·.group)) =
      (ys.filter fun f => f.group ∉ groupIds xs).map (·.group) := by
    rw [List.removeAll, List.filter_map]
    congr 1
    apply List.filter_congr
    intro f _
    rw [Bool.eq_iff_iff]
    simp [mem_groupIds]
  simp only [groupIds, List.map_append, List.eraseDups_append, hnew]

theorem groupIds_nodup (frames : List Frame) : (groupIds frames).Nodup := by
  induction hlength : frames.length using Nat.strongRecOn generalizing frames with
  | ind n ih =>
    cases frames with
    | nil => simp [groupIds]
    | cons frame rest =>
      have hcons := groupIds_append [frame] rest
      simp only [List.singleton_append] at hcons
      have hone : groupIds [frame] = [frame.group] := by simp [groupIds, List.eraseDups_cons]
      have hless : (rest.filter fun f => f.group ∉ groupIds [frame]).length < n := by
        have := List.length_filter_le (fun f => decide (f.group ∉ groupIds [frame])) rest
        simp only [List.length_cons] at hlength
        omega
      rw [hcons, hone, List.singleton_append, List.nodup_cons]
      rw [hone] at hless
      refine ⟨?_, ih _ hless _ rfl⟩
      intro hmem
      obtain ⟨f, hf, hgroup⟩ := mem_groupIds.mp hmem
      simp [hgroup] at hf

theorem groupIds_of_group {frames : List Frame} {id : Bytes} (hne : frames ≠ [])
    (h : ∀ frame ∈ frames, frame.group = id) : groupIds frames = [id] := by
  obtain ⟨first, rest, rfl⟩ := List.exists_cons_of_ne_nil hne
  have hone : groupIds [first] = [id] := by
    simp [groupIds, List.eraseDups_cons, h first List.mem_cons_self]
  have hnone : rest.filter (fun f => f.group ∉ groupIds [first]) = [] := by
    rw [List.filter_eq_nil_iff]
    intro f hf
    simp [hone, h f (List.mem_cons_of_mem _ hf)]
  have happend := groupIds_append [first] rest
  rw [hnone, hone] at happend
  simpa [groupIds] using happend

/-! ### Blocks of frames, each of a group of its own -/

section Blocks

variable {α : Type} {items : List α} {group : α → Bytes} {block : α → List Frame}

theorem group_of_mem_blocks
    (hblocks : ∀ item ∈ items, ∀ frame ∈ block item, frame.group = group item) {frame : Frame}
    (h : frame ∈ items.flatMap block) : frame.group ∈ items.map group := by
  obtain ⟨item, hitem, hframe⟩ := List.mem_flatMap.mp h
  rw [hblocks item hitem frame hframe]
  exact List.mem_map_of_mem hitem

/-- The frames of a group are those of its block. -/
theorem ofGroup_blocks
    (hblocks : ∀ item ∈ items, ∀ frame ∈ block item, frame.group = group item)
    (hdistinct : (items.map group).Nodup) {item : α} (hitem : item ∈ items) :
    ofGroup (items.flatMap block) (group item) = block item := by
  induction items with
  | nil => exact absurd hitem List.not_mem_nil
  | cons first rest ih =>
    rw [List.map_cons, List.nodup_cons] at hdistinct
    have hfirst := hblocks first List.mem_cons_self
    have hrest := fun other hother => hblocks other (List.mem_cons_of_mem first hother)
    rw [List.flatMap_cons, ofGroup_append]
    rcases List.mem_cons.mp hitem with rfl | hitem
    · have hnone : group item ∉ groupIds (rest.flatMap block) := by
        intro hmem
        obtain ⟨frame, hframe, hgroup⟩ := mem_groupIds.mp hmem
        exact hdistinct.1 (hgroup ▸ group_of_mem_blocks hrest hframe)
      rw [ofGroup_eq_self hfirst, ofGroup_eq_nil hnone, List.append_nil]
    · have hnone : group item ∉ groupIds (block first) := by
        intro hmem
        obtain ⟨frame, hframe, hgroup⟩ := mem_groupIds.mp hmem
        rw [hfirst frame hframe] at hgroup
        exact hdistinct.1 (hgroup ▸ List.mem_map_of_mem hitem)
      rw [ofGroup_eq_nil hnone, List.nil_append, ih hrest hdistinct.2 hitem]

end Blocks

/-! ### Groups that wait -/

/-- A group that has begun and is not complete, but can still become so. -/
def Waiting (frames : List Frame) (id : Bytes) : Prop :=
  Verdict.ofGroup (ofGroup frames id) = .incomplete

instance (frames : List Frame) (id : Bytes) : Decidable (Waiting frames id) :=
  inferInstanceAs (Decidable (_ = _))

/-- A group that is not settled: it has not begun, or it waits. -/
def Open (frames : List Frame) (id : Bytes) : Prop := id ∈ groupIds frames → Waiting frames id

instance (frames : List Frame) (id : Bytes) : Decidable (Open frames id) :=
  inferInstanceAs (Decidable (_ → _))

/-- No frame comes for a group that is settled. -/
def Continues (xs ys : List Frame) : Prop := ∀ frame ∈ ys, Open xs frame.group

/-- The log can be cut anywhere without leaving frames of settled groups behind the cut. -/
def Cuttable (frames : List Frame) : Prop :=
  ∀ xs ys, frames = xs ++ ys → Continues xs ys

theorem Waiting.mem_groupIds {frames : List Frame} {id : Bytes} (h : Waiting frames id) :
    id ∈ groupIds frames := by
  by_contra hnot
  rw [Waiting, ofGroup_eq_nil hnot] at h
  simp [Verdict.ofGroup] at h

/-- A settled group gets no more frames. -/
theorem Continues.ofGroup_eq {xs ys : List Frame} (h : Continues xs ys) {id : Bytes}
    (hsettled : ¬ Open xs id) : ofGroup (xs ++ ys) id = ofGroup xs id := by
  have hnone : id ∉ groupIds ys := by
    intro hmem
    obtain ⟨frame, hframe, rfl⟩ := Frame.mem_groupIds.mp hmem
    exact hsettled (h frame hframe)
  rw [ofGroup_append, ofGroup_eq_nil hnone, List.append_nil]

end Frame

namespace Assembly

open ParameterLog.Frame (groupIds ofGroup byIndex Waiting Open Continues)

/-- What becomes of a group of some frames. -/
def resolve (frames : List Frame) (id : Bytes) : Resolution :=
  Resolution.ofGroup id (ofGroup frames id)

/-- The entries that frames hold, each with its group, in the order of their first frames. -/
def found (frames : List Frame) : List (Bytes × Entry) :=
  (groupIds frames).filterMap fun id => (resolve frames id).decoded?.map (id, ·)

theorem entries_ofFrames (frames : List Frame) :
    (ofFrames frames).entries = (found frames).map (·.2) := by
  simp only [ofFrames, resolutions, found, resolve, List.filterMap_map, List.map_filterMap]
  apply List.filterMap_congr
  intro id _
  simp [Option.map_map, Function.comp_def]

theorem remaining_ofFrames (frames : List Frame) :
    (ofFrames frames).remaining =
      (groupIds frames).flatMap fun id => (resolve frames id).frames := by
  simp [ofFrames, resolutions, resolve, List.flatMap_map]

theorem frames_resolve (frames : List Frame) (id : Bytes) :
    (resolve frames id).frames =
      if Waiting frames id then byIndex (ofGroup frames id) else [] := by
  by_cases hwaiting : Waiting frames id
  · have hverdict : Verdict.ofGroup (ofGroup frames id) = .incomplete := hwaiting
    simp [resolve, Resolution.ofGroup, hverdict, hwaiting, Resolution.frames]
  · rw [if_neg hwaiting]
    cases hverdict : Verdict.ofGroup (ofGroup frames id) with
    | complete bytes =>
      cases hdecode : Entry.decode bytes <;>
        simp [resolve, Resolution.ofGroup, hverdict, hdecode, Resolution.frames]
    | incomplete => exact absurd hverdict hwaiting
    | contradictory reason => simp [resolve, Resolution.ofGroup, hverdict, Resolution.frames]

theorem decoded?_resolve_of_waiting {frames : List Frame} {id : Bytes} (h : Waiting frames id) :
    (resolve frames id).decoded? = none := by
  rw [Waiting] at h
  simp [resolve, Resolution.ofGroup, h, Resolution.decoded?]

theorem mem_found {frames : List Frame} {id : Bytes} {entry : Entry}
    (h : (id, entry) ∈ found frames) :
    id ∈ groupIds frames ∧ (resolve frames id).decoded? = some entry := by
  simp only [found, List.mem_filterMap, Option.map_eq_some_iff, Prod.mk.injEq] at h
  obtain ⟨_, hid, _, hentry, rfl, rfl⟩ := h
  exact ⟨hid, hentry⟩

/-- The entry of a group that was found is settled. -/
theorem not_open_of_mem_found {frames : List Frame} {id : Bytes} {entry : Entry}
    (h : (id, entry) ∈ found frames) : ¬ Open frames id := by
  obtain ⟨hid, hentry⟩ := mem_found h
  intro hopen
  rw [decoded?_resolve_of_waiting (hopen hid)] at hentry
  simp at hentry

theorem found_groups_sublist (frames : List Frame) :
    ((found frames).map (·.1)).Sublist (groupIds frames) := by
  simp only [found, List.map_filterMap]
  induction groupIds frames with
  | nil => simp
  | cons id rest ih =>
    rw [List.filterMap_cons]
    cases (resolve frames id).decoded? with
    | none => exact ih.cons id
    | some entry => exact ih.cons_cons id

theorem found_nodup (frames : List Frame) : ((found frames).map (·.1)).Nodup :=
  (found_groups_sublist frames).nodup (Frame.groupIds_nodup frames)

/-! ### What is left over -/

theorem group_of_mem_kept {frames : List Frame} {id : Bytes} {frame : Frame}
    (h : frame ∈ (resolve frames id).frames) : frame.group = id := by
  rw [frames_resolve] at h
  split at h
  · exact (Frame.mem_ofGroup.mp ((Frame.byIndex_perm _).mem_iff.mp h)).2
  · exact absurd h List.not_mem_nil

theorem ofGroup_remaining (frames : List Frame) (id : Bytes) :
    ofGroup (ofFrames frames).remaining id =
      if Waiting frames id then byIndex (ofGroup frames id) else [] := by
  have hblocks : ∀ other ∈ groupIds frames, ∀ frame ∈ (resolve frames other).frames,
      frame.group = other := fun _ _ _ => group_of_mem_kept
  have hdistinct : ((groupIds frames).map fun other => other).Nodup := by
    rw [List.map_id']
    exact Frame.groupIds_nodup frames
  rw [remaining_ofFrames]
  by_cases hid : id ∈ groupIds frames
  · rw [Frame.ofGroup_blocks hblocks hdistinct hid, frames_resolve]
  · have hnot : ¬ Waiting frames id := fun hwaiting => hid hwaiting.mem_groupIds
    rw [if_neg hnot, Frame.ofGroup_eq_nil]
    intro hmem
    obtain ⟨frame, hframe, rfl⟩ := Frame.mem_groupIds.mp hmem
    obtain ⟨other, hother, hsame⟩ := List.mem_map.mp (Frame.group_of_mem_blocks hblocks hframe)
    exact hid (hsame ▸ hother)

theorem groupIds_remaining (frames : List Frame) :
    groupIds (ofFrames frames).remaining = (groupIds frames).filter (Waiting frames ·) := by
  have hblocks (ids : List Bytes) (hnodup : ids.Nodup) :
      groupIds (ids.flatMap fun id => (resolve frames id).frames) =
        ids.filter (Waiting frames ·) := by
    induction ids with
    | nil => rfl
    | cons id rest ih =>
      obtain ⟨hnot, hrest⟩ := List.nodup_cons.mp hnodup
      rw [List.flatMap_cons, frames_resolve, Frame.groupIds_append]
      by_cases hwaiting : Waiting frames id
      · have hall : ∀ frame ∈ byIndex (ofGroup frames id), frame.group = id :=
          fun frame hframe => (Frame.mem_ofGroup.mp ((Frame.byIndex_perm _).mem_iff.mp hframe)).2
        have hne : byIndex (ofGroup frames id) ≠ [] := by
          intro hempty
          have hperm := Frame.byIndex_perm (ofGroup frames id)
          rw [hempty] at hperm
          exact (Verdict.of_incomplete hwaiting).nonempty hperm.symm.eq_nil
        have hone := Frame.groupIds_of_group hne hall
        have hkeep : (rest.flatMap fun id => (resolve frames id).frames).filter
            (fun f => f.group ∉ [id]) = rest.flatMap fun id => (resolve frames id).frames := by
          rw [List.filter_eq_self]
          intro frame hframe
          have hmem : frame.group ∈ rest.filter (Waiting frames ·) := by
            rw [← ih hrest]
            exact Frame.mem_groupIds.mpr ⟨frame, hframe, rfl⟩
          have hne : frame.group ≠ id := by
            intro heq
            exact hnot (heq ▸ (List.mem_filter.mp hmem).1)
          simpa using hne
        simp only [hwaiting, if_true, hone, hkeep, ih hrest, List.filter_cons, decide_true,
          List.singleton_append]
      · have hnone : groupIds [] = [] := rfl
        have hkeep : (rest.flatMap fun id => (resolve frames id).frames).filter
            (fun f => f.group ∉ ([] : List Bytes)) =
              rest.flatMap fun id => (resolve frames id).frames := by
          simp
        simp only [hwaiting, if_false, hnone, hkeep, List.nil_append, ih hrest, List.filter_cons,
          decide_false, Bool.false_eq_true]
  rw [remaining_ofFrames]
  exact hblocks _ (Frame.groupIds_nodup frames)

/-! ### Two passes and one -/

variable {xs ys : List Frame}

theorem groupIds_remaining_append (h : Continues xs ys) :
    groupIds ((ofFrames xs).remaining ++ ys) = (groupIds (xs ++ ys)).filter (Open xs ·) := by
  have hnew : (ys.filter fun f => f.group ∉ groupIds (ofFrames xs).remaining) =
      ys.filter fun f => f.group ∉ groupIds xs := by
    apply List.filter_congr
    intro f hf
    have hiff : f.group ∈ groupIds (ofFrames xs).remaining ↔ f.group ∈ groupIds xs := by
      rw [groupIds_remaining, List.mem_filter, decide_eq_true_eq]
      exact ⟨fun hboth => hboth.1, fun hmem => ⟨hmem, h f hf hmem⟩⟩
    simp [hiff]
  have hold : (groupIds xs).filter (Open xs ·) = (groupIds xs).filter (Waiting xs ·) := by
    apply List.filter_congr
    intro id hid
    simp [Open, hid]
  have hfresh : (groupIds (ys.filter fun f => f.group ∉ groupIds xs)).filter (Open xs ·) =
      groupIds (ys.filter fun f => f.group ∉ groupIds xs) := by
    rw [List.filter_eq_self]
    intro id hid
    obtain ⟨f, hf, rfl⟩ := Frame.mem_groupIds.mp hid
    have hnot : f.group ∉ groupIds xs := by simpa using (List.mem_filter.mp hf).2
    simp [Open, hnot]
  rw [Frame.groupIds_append, hnew, groupIds_remaining, Frame.groupIds_append, List.filter_append,
    hold, hfresh]

theorem verdict_remaining_append (ys : List Frame) {id : Bytes} (hopen : Open xs id) :
    Verdict.ofGroup (ofGroup ((ofFrames xs).remaining ++ ys) id) =
      Verdict.ofGroup (ofGroup (xs ++ ys) id) := by
  rw [Frame.ofGroup_append, Frame.ofGroup_append, ofGroup_remaining]
  by_cases hwaiting : Waiting xs id
  · rw [if_pos hwaiting]
    exact Verdict.ofGroup_byIndex_append hwaiting _
  · have hnot : id ∉ groupIds xs := fun hmem => hwaiting (hopen hmem)
    rw [if_neg hwaiting, Frame.ofGroup_eq_nil hnot]

theorem resolve_remaining_append {id : Bytes} (hopen : Open xs id) :
    resolve ((ofFrames xs).remaining ++ ys) id = resolve (xs ++ ys) id := by
  have hverdict := verdict_remaining_append ys hopen
  simp only [resolve, Resolution.ofGroup, hverdict]
  cases hwhole : Verdict.ofGroup (ofGroup (xs ++ ys) id) with
  | complete bytes => rfl
  | contradictory reason => rfl
  | incomplete =>
    -- Both orders of the group have different indices, so they are sorted alike.
    have hwaits := Verdict.of_incomplete (hverdict.trans hwhole)
    have hperm : (ofGroup ((ofFrames xs).remaining ++ ys) id).Perm (ofGroup (xs ++ ys) id) := by
      rw [Frame.ofGroup_append, Frame.ofGroup_append, ofGroup_remaining]
      by_cases hwaiting : Waiting xs id
      · rw [if_pos hwaiting]
        exact (Frame.byIndex_perm _).append_right _
      · have hnot : id ∉ groupIds xs := fun hmem => hwaiting (hopen hmem)
        rw [if_neg hwaiting, Frame.ofGroup_eq_nil hnot]
    simp only [Frame.byIndex_eq_of_perm hperm hwaits.nodup]

/-- Two passes leave the frames that one pass leaves. -/
theorem remaining_append (h : Continues xs ys) :
    (ofFrames ((ofFrames xs).remaining ++ ys)).remaining = (ofFrames (xs ++ ys)).remaining := by
  rw [remaining_ofFrames ((ofFrames xs).remaining ++ ys), groupIds_remaining_append h,
    remaining_ofFrames (xs ++ ys)]
  have hskip (ids : List Bytes) :
      ((ids.filter (Open xs ·)).flatMap fun id =>
          (resolve ((ofFrames xs).remaining ++ ys) id).frames) =
        ids.flatMap fun id => (resolve (xs ++ ys) id).frames := by
    induction ids with
    | nil => rfl
    | cons id rest ih =>
      by_cases hopen : Open xs id
      · simp only [List.filter_cons, hopen, decide_true, if_true, List.flatMap_cons, ih,
          resolve_remaining_append hopen]
      · have hmem : id ∈ groupIds xs := (Classical.not_imp.mp hopen).1
        have hnot : ¬ Waiting (xs ++ ys) id := by
          rw [Waiting, h.ofGroup_eq hopen]
          exact (Classical.not_imp.mp hopen).2
        have hnone : (resolve (xs ++ ys) id).frames = [] := by
          rw [frames_resolve, if_neg hnot]
        simp only [List.filter_cons, hopen, decide_false, Bool.false_eq_true, if_false,
          List.flatMap_cons, ih, hnone, List.nil_append]
  exact hskip _

/-- The second pass finds the entries of the groups that were not settled. -/
theorem found_append_right (h : Continues xs ys) :
    found ((ofFrames xs).remaining ++ ys) =
      (found (xs ++ ys)).filter fun item => Open xs item.1 := by
  have hfilter (ids : List Bytes) :
      ((ids.filter (Open xs ·)).filterMap fun id =>
          (resolve ((ofFrames xs).remaining ++ ys) id).decoded?.map (id, ·)) =
        (ids.filterMap fun id => (resolve (xs ++ ys) id).decoded?.map (id, ·)).filter
          fun item => Open xs item.1 := by
    induction ids with
    | nil => rfl
    | cons id rest ih =>
      by_cases hopen : Open xs id
      · cases hentry : (resolve (xs ++ ys) id).decoded? <;>
          simp [hopen, resolve_remaining_append hopen, hentry, ih]
      · cases hentry : (resolve (xs ++ ys) id).decoded? <;>
          simp [hopen, hentry, ih]
  rw [found, groupIds_remaining_append h]
  exact hfilter _

/-- The first pass finds the entries of the groups that are settled by then. -/
theorem found_append_left (h : Continues xs ys) :
    found xs = (found (xs ++ ys)).filter fun item => ¬ Open xs item.1 := by
  have hsettled (ids : List Bytes) (hids : ∀ id ∈ ids, id ∈ groupIds xs) :
      (ids.filterMap fun id => (resolve xs id).decoded?.map (id, ·)) =
        (ids.filterMap fun id => (resolve (xs ++ ys) id).decoded?.map (id, ·)).filter
          fun item => ¬ Open xs item.1 := by
    induction ids with
    | nil => rfl
    | cons id rest ih =>
      have hrest := ih fun other hother => hids other (List.mem_cons_of_mem _ hother)
      by_cases hopen : Open xs id
      · have hnone := decoded?_resolve_of_waiting (hopen (hids id List.mem_cons_self))
        cases hentry : (resolve (xs ++ ys) id).decoded? <;>
          simp [hopen, hnone, hentry, hrest]
      · have hsame : resolve (xs ++ ys) id = resolve xs id := by
          simp only [resolve, h.ofGroup_eq hopen]
        cases hentry : (resolve xs id).decoded? <;>
          simp [hopen, hsame, hentry, hrest]
  have hfresh (ids : List Bytes) (hids : ∀ id ∈ ids, id ∉ groupIds xs) :
      (ids.filterMap fun id => (resolve (xs ++ ys) id).decoded?.map (id, ·)).filter
        (fun item => ¬ Open xs item.1) = [] := by
    rw [List.filter_eq_nil_iff]
    intro item hitem
    simp only [List.mem_filterMap, Option.map_eq_some_iff] at hitem
    obtain ⟨id, hid, entry, -, rfl⟩ := hitem
    simp [Open, hids id hid]
  have hnew : ∀ id ∈ groupIds (ys.filter fun f => f.group ∉ groupIds xs), id ∉ groupIds xs := by
    intro id hid
    obtain ⟨f, hf, rfl⟩ := Frame.mem_groupIds.mp hid
    simpa using (List.mem_filter.mp hf).2
  rw [found, hsettled _ fun _ hid => hid, found, Frame.groupIds_append, List.filterMap_append,
    List.filter_append, hfresh _ hnew, List.append_nil]

/-- Two passes find what one pass finds, each entry once. -/
theorem found_append_perm (h : Continues xs ys) :
    (found xs ++ found ((ofFrames xs).remaining ++ ys)).Perm (found (xs ++ ys)) := by
  have hsettled : (found (xs ++ ys)).filter (fun item => ¬ Open xs item.1) =
      (found (xs ++ ys)).filter fun item => !decide (Open xs item.1) := by
    apply List.filter_congr
    intro item _
    simp
  rw [found_append_left h, found_append_right h, hsettled]
  exact List.perm_append_comm.trans (List.filter_append_perm _ _)

/-- If all that a first pass finds comes first, then two passes find in turn what one finds. -/
theorem found_append_of_prefix (h : Continues xs ys) (hinitial : found xs <+: found (xs ++ ys)) :
    found (xs ++ ys) = found xs ++ found ((ofFrames xs).remaining ++ ys) := by
  obtain ⟨later, hlater⟩ := hinitial
  have hleft := found_append_left h
  have hsettled : (found xs).filter (fun item => ¬ Open xs item.1) = found xs := by
    rw [List.filter_eq_self]
    intro item hitem
    simpa using not_open_of_mem_found hitem
  have hnone : later.filter (fun item => ¬ Open xs item.1) = [] := by
    rw [← hlater, List.filter_append, hsettled] at hleft
    exact List.append_right_eq_self.mp hleft.symm
  have hopen : later.filter (fun item => Open xs item.1) = later := by
    rw [List.filter_eq_self]
    rw [List.filter_eq_nil_iff] at hnone
    intro item hitem
    simpa using hnone item hitem
  have hclosed : (found xs).filter (fun item => Open xs item.1) = [] := by
    rw [List.filter_eq_nil_iff]
    intro item hitem
    simpa using not_open_of_mem_found hitem
  rw [found_append_right h, ← hlater, List.filter_append, hclosed, hopen, List.nil_append]

end Assembly
end ParameterLog
