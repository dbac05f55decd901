/-
Module: ParameterLog.Proofs.Mixtures
Purpose: entries are put together from frames in any order, some of them missing, among any others.
Main exports: Cutting, Cutting.row, Cutting.Present, Frame.Mixes, Frame.Lacks,
  Frame.Mixes.found_perm, Frame.Mixes.remaining_perm, Assembly.ofFrames_of_mixes
-/
import ParameterLog.Proofs.PendingGroups

/-!
Entries are cut into frames of different groups. Of these frames some are lost, the others get into
any order, and among them there are frames of other groups, which may hold entries or contradict
themselves (`Mixes`). None of that does harm: the entries whose frames are all there are found, each
once, beside those that the other frames hold by themselves (`found_perm`), and the frames of the
entries that miss some are kept (`remaining_perm`). All entries stand in the order of their first
frames, and so do the groups that are kept, each of them sorted.
-/

namespace ParameterLog

/-- An entry that can be written, cut into frames of a group. -/
structure Cutting where
  entry : Entry
  group : Bytes
  frameSize : Nat
  /-- The entry has a binary form that a log takes. -/
  encodable : ∃ bytes, entry.encode = .ok bytes
  /-- The frame size is allowed. -/
  sized : ∃ capacity, Frame.capacity frameSize = .ok capacity

namespace Cutting

/-- The frames that the entry is cut into. -/
def row (c : Cutting) : List Frame := (c.entry.frames c.group c.frameSize).toOption.getD []

theorem frames_eq (c : Cutting) : c.entry.frames c.group c.frameSize = .ok c.row := by
  obtain ⟨bytes, hencode⟩ := c.encodable
  obtain ⟨capacity, hcapacity⟩ := c.sized
  rw [row, Entry.frames_eq_ok c.group (Entry.size_of_encode hencode).1 hcapacity]
  rfl

theorem isStart (c : Cutting) : Frame.IsStart c.group c.row :=
  (Frame.isStart_of_frames c.frames_eq).1

theorem row_nodup (c : Cutting) : c.row.Nodup := c.isStart.distinct.of_map _

/-- All frames of the entry are there. -/
def Present (frames : List Frame) (c : Cutting) : Prop := ∀ frame ∈ c.row, frame ∈ frames

instance (frames : List Frame) (c : Cutting) : Decidable (c.Present frames) :=
  inferInstanceAs (Decidable (∀ frame ∈ c.row, frame ∈ frames))

end Cutting

namespace Frame

variable {frames kept foreign xs ys : List Frame} {cuttings : List Cutting} {c : Cutting}
  {id : Bytes} {entry : Entry}

/-- Frames are the same up to their order if those of each group are. -/
theorem perm_of_ofGroup (h : ∀ id, (ofGroup xs id).Perm (ofGroup ys id)) : xs.Perm ys := by
  have hown (zs : List Frame) (frame : Frame) :
      zs.count frame = (ofGroup zs frame.group).count frame := by
    rw [ofGroup, List.count_filter (by simp)]
  refine List.perm_iff_count.mpr fun frame => ?_
  calc xs.count frame
      = (ofGroup xs frame.group).count frame := hown xs frame
    _ = (ofGroup ys frame.group).count frame := (h frame.group).count_eq frame
    _ = ys.count frame := (hown ys frame).symm

theorem ofGroup_filter (p : Bytes → Prop) [DecidablePred p] :
    ofGroup (frames.filter fun f => p f.group) id = if p id then ofGroup frames id else [] := by
  rw [ofGroup, List.filter_filter]
  split
  · next hp =>
    refine List.filter_congr fun f _ => ?_
    by_cases hgroup : f.group = id <;> simp [hgroup, hp]
  · next hp =>
    rw [List.filter_eq_nil_iff]
    rintro f - hboth
    simp only [Bool.and_eq_true, beq_iff_eq, decide_eq_true_eq] at hboth
    exact hp (hboth.1 ▸ hboth.2)

/-- What a group makes up does not depend on the order of its frames. -/
theorem holdsEntry_of_perm (h : (ofGroup xs id).Perm (ofGroup ys id))
    (hholds : HoldsEntry xs id entry) : HoldsEntry ys id entry := by
  obtain ⟨bytes, ⟨arranged, hperm, hmakes⟩, hdecode⟩ := hholds
  exact ⟨bytes, ⟨arranged, hperm.trans h, hmakes⟩, hdecode⟩

theorem group_of_mem_rows {frame : Frame} (h : frame ∈ cuttings.flatMap Cutting.row) :
    frame.group ∈ cuttings.map (·.group) :=
  group_of_mem_blocks (fun c _ => c.isStart.group_eq) h

theorem ofGroup_rows (hdistinct : (cuttings.map (·.group)).Nodup) (hc : c ∈ cuttings) :
    ofGroup (cuttings.flatMap Cutting.row) c.group = c.row :=
  ofGroup_blocks (fun other _ => other.isStart.group_eq) hdistinct hc

/-- The frames are some of those of entries cut into frames of different groups, and any frames of
other groups, in any order. -/
structure Mixes (frames : List Frame) (cuttings : List Cutting) (kept foreign : List Frame) :
    Prop where
  distinct : (cuttings.map (·.group)).Nodup
  part : kept.Sublist (cuttings.flatMap Cutting.row)
  others : ∀ frame ∈ foreign, frame.group ∉ cuttings.map (·.group)
  mixed : frames.Perm (kept ++ foreign)

/-- The group is that of an entry that misses some frame. -/
def Lacks (frames : List Frame) (cuttings : List Cutting) (id : Bytes) : Prop :=
  ∃ c ∈ cuttings, c.group = id ∧ ¬ c.Present frames

instance (frames : List Frame) (cuttings : List Cutting) (id : Bytes) :
    Decidable (Lacks frames cuttings id) :=
  inferInstanceAs (Decidable (∃ c ∈ cuttings, c.group = id ∧ ¬ c.Present frames))

namespace Mixes

theorem ofGroup_perm (h : Mixes frames cuttings kept foreign) (id : Bytes) :
    (ofGroup frames id).Perm (ofGroup kept id ++ ofGroup foreign id) := by
  rw [← ofGroup_append]
  exact h.mixed.filter _

theorem other_perm (h : Mixes frames cuttings kept foreign)
    (hid : id ∉ cuttings.map (·.group)) : (ofGroup frames id).Perm (ofGroup foreign id) := by
  have hnone : id ∉ groupIds kept := by
    intro hmem
    obtain ⟨frame, hframe, rfl⟩ := mem_groupIds.mp hmem
    exact hid (group_of_mem_rows (h.part.subset hframe))
  have hperm := h.ofGroup_perm id
  rwa [ofGroup_eq_nil hnone, List.nil_append] at hperm

theorem own_subperm (h : Mixes frames cuttings kept foreign) (hc : c ∈ cuttings) :
    (ofGroup frames c.group).Subperm c.row := by
  have hnone : c.group ∉ groupIds foreign := by
    intro hmem
    obtain ⟨frame, hframe, hgroup⟩ := mem_groupIds.mp hmem
    exact h.others frame hframe (hgroup ▸ List.mem_map_of_mem hc)
  have hperm := h.ofGroup_perm c.group
  rw [ofGroup_eq_nil hnone, List.append_nil] at hperm
  have hsublist : (ofGroup kept c.group).Sublist c.row := by
    rw [← ofGroup_rows h.distinct hc]
    exact h.part.filter _
  exact hperm.subperm.trans hsublist.subperm

/-- The frames of an entry are all there if its group has as many. -/
theorem present_iff (h : Mixes frames cuttings kept foreign) (hc : c ∈ cuttings) :
    c.Present frames ↔ (ofGroup frames c.group).Perm c.row := by
  constructor
  · intro hpresent
    refine (h.own_subperm hc).antisymm (c.row_nodup.subperm fun frame hframe => ?_)
    exact mem_ofGroup.mpr ⟨hpresent frame hframe, c.isStart.group_eq frame hframe⟩
  · intro hperm frame hframe
    exact (mem_ofGroup.mp (hperm.mem_iff.mpr hframe)).1

/-- The group of an entry that misses some frame waits once it has begun. -/
theorem waiting_of_absent (h : Mixes frames cuttings kept foreign) (hc : c ∈ cuttings)
    (hbegun : c.group ∈ groupIds frames) (habsent : ¬ c.Present frames) :
    Waiting frames c.group := by
  have hpart := h.own_subperm hc
  apply Assembly.incomplete_of_subperm c.isStart hpart (ofGroup_ne_nil hbegun)
  by_contra hlong
  exact habsent ((h.present_iff hc).mpr (hpart.perm_of_length_le (Nat.not_lt.mp hlong)))

theorem lacks_iff (h : Mixes frames cuttings kept foreign) (hc : c ∈ cuttings) :
    Lacks frames cuttings c.group ↔ ¬ c.Present frames := by
  constructor
  · rintro ⟨other, hother, hgroup, habsent⟩
    rwa [List.inj_on_of_nodup_map h.distinct hother hc hgroup] at habsent
  · exact fun habsent => ⟨c, hc, rfl, habsent⟩

/-- The entry of a cutting is found if all of its frames are there. -/
theorem holdsEntry_own_iff (h : Mixes frames cuttings kept foreign) (hc : c ∈ cuttings) :
    HoldsEntry frames c.group entry ↔ c.Present frames ∧ entry = c.entry := by
  have hown : ofGroup c.row c.group = c.row := ofGroup_eq_self c.isStart.group_eq
  have hrow : HoldsEntry c.row c.group entry ↔ entry = c.entry :=
    Assembly.holdsEntry_of_row (c.frames_eq.trans (congrArg _ hown.symm))
  by_cases hpresent : c.Present frames
  · -- No frame comes twice, so the group is the whole row in some order and makes up what it does.
    have hperm : (ofGroup frames c.group).Perm (ofGroup c.row c.group) := by
      rw [hown]
      exact (h.present_iff hc).mp hpresent
    rw [and_iff_right hpresent, ← hrow]
    exact ⟨holdsEntry_of_perm hperm, holdsEntry_of_perm hperm.symm⟩
  · refine ⟨fun hholds => ?_, fun hboth => absurd hboth.1 hpresent⟩
    have hbegun := Assembly.mem_groupIds_of_holdsEntry hholds
    have hsettled := Assembly.not_open_of_mem_found (Assembly.mem_found_iff.mpr hholds)
    exact absurd (fun _ => h.waiting_of_absent hc hbegun hpresent) hsettled

/-- The group of an entry waits if it has begun and misses some frame. -/
theorem waiting_own_iff (h : Mixes frames cuttings kept foreign) (hc : c ∈ cuttings) :
    Waiting frames c.group ↔ c.group ∈ groupIds frames ∧ ¬ c.Present frames := by
  constructor
  · intro hwaiting
    refine ⟨hwaiting.mem_groupIds, fun hpresent => ?_⟩
    have hholds := (h.holdsEntry_own_iff hc).mpr ⟨hpresent, rfl⟩
    exact Assembly.not_open_of_mem_found (Assembly.mem_found_iff.mpr hholds) fun _ => hwaiting
  · rintro ⟨hbegun, habsent⟩
    exact h.waiting_of_absent hc hbegun habsent

/-- Other groups make up what they make up by themselves. -/
theorem holdsEntry_other_iff (h : Mixes frames cuttings kept foreign)
    (hid : id ∉ cuttings.map (·.group)) :
    HoldsEntry frames id entry ↔ HoldsEntry foreign id entry :=
  ⟨holdsEntry_of_perm (h.other_perm hid), holdsEntry_of_perm (h.other_perm hid).symm⟩

/-- The entries that are there, each with its group. -/
theorem mem_present_iff (h : Mixes frames cuttings kept foreign) :
    (id, entry) ∈ (cuttings.filter (·.Present frames)).map (fun c => (c.group, c.entry)) ↔
      id ∈ cuttings.map (·.group) ∧ HoldsEntry frames id entry := by
  simp only [List.mem_map, List.mem_filter, decide_eq_true_eq, Prod.mk.injEq]
  constructor
  · rintro ⟨c, ⟨hc, hpresent⟩, rfl, rfl⟩
    exact ⟨⟨c, hc, rfl⟩, (h.holdsEntry_own_iff hc).mpr ⟨hpresent, rfl⟩⟩
  · rintro ⟨⟨c, hc, rfl⟩, hholds⟩
    obtain ⟨hpresent, rfl⟩ := (h.holdsEntry_own_iff hc).mp hholds
    exact ⟨c, ⟨hc, hpresent⟩, rfl, rfl⟩

/-- Found are the entries all of whose frames are there, and those that the other frames hold, each
of them once. -/
theorem found_perm (h : Mixes frames cuttings kept foreign) :
    (Assembly.found frames).Perm
      ((cuttings.filter (·.Present frames)).map (fun c => (c.group, c.entry)) ++
        Assembly.found foreign) := by
  have hpresent : ((cuttings.filter (·.Present frames)).map
      (fun c => (c.group, c.entry))).Nodup := by
    have hgroups := h.distinct.sublist ((List.filter_sublist (p := (·.Present frames))).map _)
    apply List.Nodup.of_map Prod.fst
    rwa [List.map_map]
  have hforeign {id : Bytes} {entry : Entry} (hmem : (id, entry) ∈ Assembly.found foreign) :
      id ∉ cuttings.map (·.group) := by
    obtain ⟨frame, hframe, rfl⟩ := mem_groupIds.mp (Assembly.mem_found hmem).1
    exact h.others frame hframe
  have hboth : ((cuttings.filter (·.Present frames)).map (fun c => (c.group, c.entry)) ++
      Assembly.found foreign).Nodup := by
    refine List.nodup_append.mpr ⟨hpresent, (Assembly.found_nodup foreign).of_map _, ?_⟩
    rintro ⟨id, entry⟩ hown _ hother rfl
    exact hforeign hother (h.mem_present_iff.mp hown).1
  refine (List.perm_ext_iff_of_nodup ((Assembly.found_nodup frames).of_map _) hboth).mpr ?_
  rintro ⟨id, entry⟩
  rw [List.mem_append, h.mem_present_iff, Assembly.mem_found_iff, Assembly.mem_found_iff]
  by_cases hid : id ∈ cuttings.map (·.group)
  · have hnone : ¬ HoldsEntry foreign id entry :=
      fun hholds => hforeign (Assembly.mem_found_iff.mpr hholds) hid
    simp only [hid, hnone, true_and, or_false]
  · simp only [hid, false_and, false_or, h.holdsEntry_other_iff hid]

/-- Kept of the entries' groups are the frames of the entries that miss some frame. -/
theorem remaining_perm (h : Mixes frames cuttings kept foreign) :
    ((Assembly.ofFrames frames).remaining.filter (·.group ∈ cuttings.map (·.group))).Perm
      (frames.filter fun f => Lacks frames cuttings f.group) := by
  apply perm_of_ofGroup
  intro id
  rw [ofGroup_filter (· ∈ cuttings.map (·.group)), ofGroup_filter (Lacks frames cuttings),
    Assembly.ofGroup_remaining]
  by_cases hid : id ∈ cuttings.map (·.group)
  · obtain ⟨c, hc, rfl⟩ := List.mem_map.mp hid
    rw [if_pos hid]
    by_cases hpresent : c.Present frames
    · have hnot : ¬ Waiting frames c.group :=
        fun hwaiting => ((h.waiting_own_iff hc).mp hwaiting).2 hpresent
      rw [if_neg hnot, if_neg fun hlacks => (h.lacks_iff hc).mp hlacks hpresent]
    · rw [if_pos ((h.lacks_iff hc).mpr hpresent)]
      by_cases hbegun : c.group ∈ groupIds frames
      · rw [if_pos (h.waiting_of_absent hc hbegun hpresent)]
        exact byIndex_perm _
      · have hnot : ¬ Waiting frames c.group := fun hwaiting => hbegun hwaiting.mem_groupIds
        rw [if_neg hnot, ofGroup_eq_nil hbegun]
  · have hnot : ¬ Lacks frames cuttings id := by
      rintro ⟨c, hc, rfl, -⟩
      exact hid (List.mem_map_of_mem hc)
    rw [if_neg hid, if_neg hnot]

end Mixes
end Frame

namespace Assembly

open ParameterLog.Frame (Mixes Lacks Before firstAt)

variable {frames kept foreign : List Frame} {cuttings : List Cutting}

/-- Entries are put together from their frames in any order, with some of them lost and with any
others between them. The entries all of whose frames are there are given out once, together with
those that the other frames hold by themselves, in the order of their first frames. Of the entries
that miss some frame the frames that are there are kept, by the order in which their groups have
begun and then by their indices. -/
theorem ofFrames_of_mixes (h : Mixes frames cuttings kept foreign) :
    (ofFrames frames).entries = (found frames).map (·.2) ∧
      (found frames).Perm ((cuttings.filter (·.Present frames)).map (fun c => (c.group, c.entry)) ++
        found foreign) ∧
      (found frames).Pairwise (fun a b => firstAt frames a.1 < firstAt frames b.1) ∧
      ((ofFrames frames).remaining.filter (·.group ∈ cuttings.map (·.group))).Perm
        (frames.filter fun f => Lacks frames cuttings f.group) ∧
      (ofFrames frames).remaining.Pairwise (Before frames) :=
  ⟨entries_ofFrames frames, h.found_perm, found_sorted frames, h.remaining_perm,
    remaining_sorted frames⟩

/-- An entry in two frames that both arrive. -/
def arrived : Cutting :=
  ⟨⟨.untyped, [7], [1, 2, 3, 4, 5, 6, 7, 8, 9]⟩, [1], 32, ⟨_, rfl⟩, ⟨_, rfl⟩⟩

/-- An entry in two frames of which the first is lost. -/
def torn : Cutting :=
  ⟨⟨.parameters, [8], [1, 2, 3, 4, 5, 6, 7, 8, 9]⟩, [2], 32, ⟨_, rfl⟩, ⟨_, rfl⟩⟩

/-- An entry of another group, and a frame that announces none. -/
def strangers : List Frame := [⟨1, 0, [3], [1, 2, 0, 0]⟩, ⟨0, 0, [4], []⟩]

/-- The frames that are there, in some order. -/
def jumble : List Frame := torn.row.drop 1 ++ arrived.row.drop 1 ++ strangers ++ arrived.row.take 1

theorem ofFrames_of_mixes_jumble :
    Mixes jumble [arrived, torn] (arrived.row ++ torn.row.drop 1) strangers ∧
      (ofFrames jumble).entries = (found jumble).map (·.2) ∧
      (found jumble).Perm
        (([arrived, torn].filter (·.Present jumble)).map (fun c => (c.group, c.entry)) ++
          found strangers) ∧
      (found jumble).Pairwise (fun a b => firstAt jumble a.1 < firstAt jumble b.1) ∧
      ((ofFrames jumble).remaining.filter (·.group ∈ [arrived, torn].map (·.group))).Perm
        (jumble.filter fun f => Lacks jumble [arrived, torn] f.group) ∧
      (ofFrames jumble).remaining.Pairwise (Before jumble) := by
  have hmixes : Mixes jumble [arrived, torn] (arrived.row ++ torn.row.drop 1) strangers := by
    constructor
    · decide
    · decide +kernel
    · decide
    · decide +kernel
  exact ⟨hmixes, ofFrames_of_mixes hmixes⟩

end Assembly
end ParameterLog
