/-
Module: ParameterLog.Proofs.Interleaving
Purpose: logs that hold the frames of several entries in any order.
Main exports: Frame.Interleaves, Frame.Interleaves.continues, Frame.Interleaves.found_writing,
  Frame.Encloses, Assembly.encloses_of_overtaken, Frame.found_enclosing
-/
import ParameterLog.Proofs.Scattering

/-!
Writers that append at the same time leave the frames of their entries in any order, each entry's in
the order of their indices (`Interleaves`). Such a log can be cut anywhere, and no frame behind the
cut belongs to a group that is settled before it.

What a cut can change is the order in which entries are found. One that begins before another and is
not complete yet when the other is (`Encloses`) comes first for a reader of the whole, and behind
the other for a reader that stopped in between (`encloses_of_overtaken`).
-/

namespace ParameterLog

namespace Frame

/-- The frames are those of writings, each one's in their order. -/
structure Interleaves (frames : List Frame) (ws : List Writing) : Prop where
  rows : ∀ w ∈ ws, ofGroup frames w.group = w.row
  known : ∀ frame ∈ frames, ∃ w ∈ ws, frame.group = w.group

/-- At some moment the inner group has all of its frames, and the outer one, which has begun before
it, has not. -/
def Encloses (frames : List Frame) (outer inner : Bytes) : Prop :=
  ∃ xs ys, frames = xs ++ ys ∧ [outer, inner].Sublist (groupIds xs) ∧ outer ∈ groupIds ys ∧
    inner ∉ groupIds ys

namespace Interleaves

variable {frames xs ys : List Frame} {ws : List Writing}

theorem scatters (h : Interleaves frames ws) : Scatters frames ws := by
  refine ⟨fun w hw => ?_, h.known⟩
  rw [h.rows w hw]

theorem fits (h : Interleaves frames ws) (hws : ∀ w ∈ ws, w.Succeeds) :
    ∀ frame ∈ frames, frame.Fits :=
  h.scatters.fits hws

theorem continues (h : Interleaves (xs ++ ys) ws) (hws : ∀ w ∈ ws, w.Succeeds) :
    Continues xs ys :=
  h.scatters.continues hws

theorem cuttable (h : Interleaves frames ws) (hws : ∀ w ∈ ws, w.Succeeds) : Cuttable frames :=
  h.scatters.cuttable hws

theorem resolve_writing (h : Interleaves frames ws) (hws : ∀ w ∈ ws, w.Succeeds) {w : Writing}
    (hw : w ∈ ws) : (Assembly.resolve frames w.group).decoded? = some w.entry := by
  have hfound := Assembly.found_frames (hws w hw).frames_eq
  have hmem : (w.group, w.entry) ∈ Assembly.found w.row := by simp [hfound]
  have hown := (Assembly.mem_found hmem).2
  rw [Assembly.resolve, ofGroup_eq_self (hws w hw).isStart.group_eq] at hown
  rw [Assembly.resolve, h.rows w hw, hown]

/-- What is found are entries that were written. -/
theorem found_writing (h : Interleaves frames ws) (hws : ∀ w ∈ ws, w.Succeeds)
    {item : Bytes × Entry} (hitem : item ∈ Assembly.found frames) :
    ∃ w ∈ ws, item = (w.group, w.entry) := by
  obtain ⟨hid, hentry⟩ := Assembly.mem_found hitem
  obtain ⟨frame, hframe, hgroup⟩ := mem_groupIds.mp hid
  obtain ⟨w, hw, hknown⟩ := h.known frame hframe
  rw [← hgroup, hknown, h.resolve_writing hws hw, Option.some.injEq] at hentry
  refine ⟨w, hw, Prod.ext (hgroup.symm.trans hknown) hentry.symm⟩

/-- The outer of two writings takes more than one frame. -/
theorem two_le_of_encloses (h : Interleaves frames ws) {outer : Writing} {inner : Bytes}
    (houter : outer ∈ ws) (hencloses : Encloses frames outer.group inner) :
    2 ≤ outer.row.length := by
  obtain ⟨xs, ys, rfl, hfirst, hlater, -⟩ := hencloses
  have hxs := List.length_pos_iff.mpr (ofGroup_ne_nil (hfirst.subset List.mem_cons_self))
  have hys := List.length_pos_iff.mpr (ofGroup_ne_nil hlater)
  rw [← h.rows outer houter, ofGroup_append, List.length_append]
  omega

end Interleaves
end Frame

namespace Assembly

open ParameterLog.Frame (groupIds ofGroup Waiting Open Continues Encloses Interleaves)

/-- If the last of two items stands in the front of a list, so does the first. -/
theorem pair_sublist_left {α : Type} {a b : α} {front back : List α}
    (h : [a, b].Sublist (front ++ back)) (hb : b ∉ back) : [a, b].Sublist front := by
  obtain ⟨left, right, heq, hleft, hright⟩ := List.sublist_append_iff.mp h
  have hnone : right = [] := by
    by_contra hne
    have hlast : right.getLast hne = b := by
      have hwhole := List.getLast_append_right (l := left) hne
      simpa [← heq] using hwhole.symm
    exact hb (hright.subset (hlast ▸ List.getLast_mem hne))
  rw [hnone, List.append_nil] at heq
  exact heq ▸ hleft

/-- If an entry is found behind one that began after it, its group encloses that of the other. -/
theorem encloses_of_overtaken {xs ys zs : List Frame} (hcontinues : Continues xs (ys ++ zs))
    {a b : Bytes × Entry} (hab : [a, b].Sublist (found (xs ++ ys))) (ha : Open xs a.1)
    (hb : ¬ Open xs b.1) : Encloses (xs ++ ys ++ zs) a.1 b.1 := by
  obtain ⟨hbBegun, -⟩ := Classical.not_imp.mp hb
  refine ⟨xs, ys ++ zs, List.append_assoc .., ?_, ?_, ?_⟩
  · have hgroups := (hab.map (·.1)).trans (found_groups_sublist (xs ++ ys))
    rw [Frame.groupIds_append] at hgroups
    apply pair_sublist_left hgroups
    intro hmem
    obtain ⟨frame, hframe, hgroup⟩ := Frame.mem_groupIds.mp hmem
    have hnew : frame.group ∉ groupIds xs := by simpa using (List.mem_filter.mp hframe).2
    exact hnew (hgroup ▸ hbBegun)
  · have hsettled : ¬ Open (xs ++ ys) a.1 := not_open_of_mem_found (hab.subset List.mem_cons_self)
    by_contra hnone
    have hnoneYs : a.1 ∉ groupIds ys := by
      intro hmem
      obtain ⟨frame, hframe, hgroup⟩ := Frame.mem_groupIds.mp hmem
      exact hnone (Frame.mem_groupIds.mpr ⟨frame, List.mem_append_left _ hframe, hgroup⟩)
    apply hsettled
    intro hbegun
    obtain ⟨frame, hframe, hgroup⟩ := Frame.mem_groupIds.mp hbegun
    have hframeXs : frame ∈ xs := by
      rcases List.mem_append.mp hframe with hframe | hframe
      · exact hframe
      · exact absurd (Frame.mem_groupIds.mpr ⟨frame, hframe, hgroup⟩) hnoneYs
    have hwaits := ha (Frame.mem_groupIds.mpr ⟨frame, hframeXs, hgroup⟩)
    rwa [Waiting, Frame.ofGroup_append, Frame.ofGroup_eq_nil hnoneYs, List.append_nil]
  · intro hmem
    obtain ⟨frame, hframe, hgroup⟩ := Frame.mem_groupIds.mp hmem
    exact hb (hgroup ▸ hcontinues frame hframe)

end Assembly

namespace Frame

/-! ### Making up such logs -/

section Making

variable {xs ys front back : List Frame} {us vs : List Writing} {x y : Writing}

theorem Interleaves.not_mem_groupIds (h : Interleaves xs us) {group : Bytes}
    (hgroup : ∀ u ∈ us, u.group ≠ group) : group ∉ groupIds xs := by
  intro hmem
  obtain ⟨frame, hframe, rfl⟩ := mem_groupIds.mp hmem
  obtain ⟨u, hu, hsame⟩ := h.known frame hframe
  exact hgroup u hu hsame.symm

theorem Interleaves.append (hus : Interleaves xs us) (hvs : Interleaves ys vs)
    (hdistinct : ∀ u ∈ us, ∀ v ∈ vs, u.group ≠ v.group) :
    Interleaves (xs ++ ys) (us ++ vs) := by
  constructor
  · intro w hw
    rw [ofGroup_append]
    rcases List.mem_append.mp hw with hw | hw
    · have hnone := hvs.not_mem_groupIds fun v hv => (hdistinct w hw v hv).symm
      rw [ofGroup_eq_nil hnone, List.append_nil, hus.rows w hw]
    · have hnone := hus.not_mem_groupIds fun u hu => hdistinct u hu w hw
      rw [ofGroup_eq_nil hnone, List.nil_append, hvs.rows w hw]
  · intro frame hframe
    rcases List.mem_append.mp hframe with hframe | hframe
    · obtain ⟨w, hw, hgroup⟩ := hus.known frame hframe
      exact ⟨w, List.mem_append_left _ hw, hgroup⟩
    · obtain ⟨w, hw, hgroup⟩ := hvs.known frame hframe
      exact ⟨w, List.mem_append_right _ hw, hgroup⟩

theorem interleaves_rowsOf (h : ∀ u ∈ us, u.Succeeds) (hdistinct : (us.map (·.group)).Nodup) :
    Interleaves (rowsOf us) us := by
  have hblocks : ∀ u ∈ us, ∀ frame ∈ u.row, frame.group = u.group :=
    fun u hu => (h u hu).isStart.group_eq
  refine ⟨fun u hu => ofGroup_blocks hblocks hdistinct hu, fun frame hframe => ?_⟩
  obtain ⟨u, hu, hframe⟩ := List.mem_flatMap.mp hframe
  exact ⟨u, hu, hblocks u hu frame hframe⟩

/-- A writing between the frames of another. -/
theorem interleaves_enclosing (hx : x.Succeeds) (hy : y.Succeeds) (hne : x.group ≠ y.group)
    (hrow : x.row = front ++ back) : Interleaves (front ++ y.row ++ back) [x, y] := by
  have hxGroup : ∀ frame ∈ front ++ back, frame.group = x.group := hrow ▸ hx.isStart.group_eq
  have hfront : ∀ frame ∈ front, frame.group = x.group :=
    fun frame hframe => hxGroup frame (List.mem_append_left _ hframe)
  have hback : ∀ frame ∈ back, frame.group = x.group :=
    fun frame hframe => hxGroup frame (List.mem_append_right _ hframe)
  have hnot {part : List Frame} (hpart : ∀ frame ∈ part, frame.group = x.group) :
      y.group ∉ groupIds part := by
    intro hmem
    obtain ⟨frame, hframe, hgroup⟩ := mem_groupIds.mp hmem
    exact hne ((hpart frame hframe).symm.trans hgroup)
  have hyRow : x.group ∉ groupIds y.row := by
    rw [hy.groupIds_row, List.mem_singleton]
    exact hne
  constructor
  · intro w hw
    rw [ofGroup_append, ofGroup_append]
    rcases List.mem_cons.mp hw with rfl | hw
    · rw [ofGroup_eq_self hfront, ofGroup_eq_nil hyRow, ofGroup_eq_self hback, List.append_nil,
        hrow]
    · rw [List.mem_singleton.mp hw, ofGroup_eq_nil (hnot hfront), ofGroup_eq_nil (hnot hback),
        ofGroup_eq_self hy.isStart.group_eq, List.append_nil, List.nil_append]
  · intro frame hframe
    rcases List.mem_append.mp hframe with hframe | hframe
    · rcases List.mem_append.mp hframe with hframe | hframe
      · exact ⟨x, List.mem_cons_self, hfront frame hframe⟩
      · exact ⟨y, by simp, hy.isStart.group_eq frame hframe⟩
    · exact ⟨x, List.mem_cons_self, hback frame hframe⟩

/-- The enclosing entry is found first. -/
theorem found_enclosing (hx : x.Succeeds) (hy : y.Succeeds) (hne : x.group ≠ y.group)
    (hrow : x.row = front ++ back) (hfront : front ≠ []) :
    Assembly.found (front ++ y.row ++ back) = [(x.group, x.entry), (y.group, y.entry)] := by
  have hinterleaves := interleaves_enclosing hx hy hne hrow
  have hboth : ∀ w ∈ [x, y], w.Succeeds := by
    intro w hw
    rcases List.mem_cons.mp hw with rfl | hw
    · exact hx
    · exact List.mem_singleton.mp hw ▸ hy
  have hxGroup : ∀ frame ∈ front ++ back, frame.group = x.group := hrow ▸ hx.isStart.group_eq
  have hfrontIds : groupIds front = [x.group] :=
    groupIds_of_group hfront fun frame hframe => hxGroup frame (List.mem_append_left _ hframe)
  have hnew : (y.row ++ back).filter (fun f => f.group ∉ groupIds front) = y.row := by
    have hkept : y.row.filter (fun f => f.group ∉ groupIds front) = y.row := by
      rw [List.filter_eq_self]
      intro frame hframe
      simpa [hfrontIds, hy.isStart.group_eq frame hframe] using hne.symm
    have hnone : back.filter (fun f => f.group ∉ groupIds front) = [] := by
      rw [List.filter_eq_nil_iff]
      intro frame hframe
      simp [hfrontIds, hxGroup frame (List.mem_append_right _ hframe)]
    rw [List.filter_append, hkept, hnone, List.append_nil]
  have hids : groupIds (front ++ y.row ++ back) = [x.group, y.group] := by
    rw [List.append_assoc, groupIds_append, hnew, hfrontIds, hy.groupIds_row]
    rfl
  have hxEntry := hinterleaves.resolve_writing hboth (w := x) (by simp)
  have hyEntry := hinterleaves.resolve_writing hboth (w := y) (by simp)
  rw [Assembly.found, hids, List.filterMap_cons, List.filterMap_cons, hxEntry, hyEntry]
  rfl

end Making

end Frame
/-! ### An entry between the frames of another -/

open ParameterLog.Frame (Open Interleaves)
open Assembly (found)
open Cursor (given)

variable {us : List Writing} {x y : Writing}

/-- The frames of some writings, and behind them one writing between the frames of another. -/
def enclosing (us : List Writing) (x y : Writing) : List Frame :=
  rowsOf us ++ (x.row.take 1 ++ y.row ++ x.row.drop 1)

theorem interleaves_enclosing_log (h : Writing.Apart (us ++ [x, y])) :
    Interleaves (enclosing us x y) (us ++ [x, y]) := by
  obtain ⟨hus, hx, hy, hne, hacross⟩ := h.parts
  exact (Frame.interleaves_rowsOf hus.succeed hus.distinct).append
    (Frame.interleaves_enclosing hx hy hne (List.take_append_drop 1 x.row).symm) hacross

/-- Frames of the last writings hold their entries behind those of the others. -/
theorem found_rowsOf_append (h : Writing.Apart (us ++ [x, y])) {part : List Frame}
    (hpart : ∀ frame ∈ part, frame.group = x.group ∨ frame.group = y.group) :
    found (rowsOf us ++ part) = us.map (fun u => (u.group, u.entry)) ++ found part := by
  obtain ⟨hus, -, -, -, hacross⟩ := h.parts
  rw [Assembly.found_append_of_disjoint, Assembly.found_rows hus.succeed hus.distinct]
  intro id hid
  obtain ⟨frame, hframe, rfl⟩ := Frame.mem_groupIds.mp hid
  apply (Frame.interleaves_rowsOf hus.succeed hus.distinct).not_mem_groupIds
  intro u hu hsame
  rcases hpart frame hframe with hgroup | hgroup
  · exact hacross u hu x (by simp) (hsame.trans hgroup)
  · exact hacross u hu y (by simp) (hsame.trans hgroup)

/-- A reader of the whole finds the enclosing entry first. -/
theorem found_enclosing_log (h : Writing.Apart (us ++ [x, y])) (hlong : 2 ≤ x.row.length) :
    found (enclosing us x y) = (us ++ [x, y]).map fun w => (w.group, w.entry) := by
  obtain ⟨-, hx, hy, hne, -⟩ := h.parts
  have hrow : x.row = x.row.take 1 ++ x.row.drop 1 := (List.take_append_drop 1 x.row).symm
  have hfront : x.row.take 1 ≠ [] := by
    rw [← List.length_pos_iff, List.length_take]
    omega
  have hpart : ∀ frame ∈ x.row.take 1 ++ y.row ++ x.row.drop 1,
      frame.group = x.group ∨ frame.group = y.group := by
    intro frame hframe
    obtain ⟨w, hw, hgroup⟩ := (Frame.interleaves_enclosing hx hy hne hrow).known frame hframe
    rcases List.mem_cons.mp hw with rfl | hw
    · exact .inl hgroup
    · exact .inr (List.mem_singleton.mp hw ▸ hgroup)
  rw [enclosing, found_rowsOf_append h hpart, Frame.found_enclosing hx hy hne hrow hfront]
  simp

/-- A reader that stops behind the inner entry finds that one, and not the other. -/
theorem found_before_rest (h : Writing.Apart (us ++ [x, y])) (hlong : 2 ≤ x.row.length) :
    found (rowsOf us ++ (x.row.take 1 ++ y.row)) =
      (us ++ [y]).map fun w => (w.group, w.entry) := by
  obtain ⟨-, hx, hy, hne, -⟩ := h.parts
  have hback : x.row.drop 1 ≠ [] := by
    rw [← List.length_pos_iff, List.length_drop]
    omega
  have hstart := hx.isStart
  rw [← List.take_append_drop 1 x.row] at hstart
  have hfront : ∀ frame ∈ x.row.take 1, frame.group = x.group :=
    fun frame hframe => hx.isStart.group_eq frame (List.mem_of_mem_take hframe)
  have hdisjoint : ∀ id ∈ Frame.groupIds y.row, id ∉ Frame.groupIds (x.row.take 1) := by
    intro id hid hmem
    rw [hy.groupIds_row, List.mem_singleton] at hid
    obtain ⟨frame, hframe, hgroup⟩ := Frame.mem_groupIds.mp hmem
    exact hne ((hfront frame hframe).symm.trans (hgroup.trans hid))
  have hpart : ∀ frame ∈ x.row.take 1 ++ y.row,
      frame.group = x.group ∨ frame.group = y.group := by
    intro frame hframe
    rcases List.mem_append.mp hframe with hframe | hframe
    · exact .inl (hfront frame hframe)
    · exact .inr (hy.isStart.group_eq frame hframe)
  rw [found_rowsOf_append h hpart, Assembly.found_append_of_disjoint hdisjoint,
    Assembly.found_of_cut hstart hback, Assembly.found_frames hy.frames_eq]
  simp

/-- Reading on, it finds the other one behind. -/
theorem given_rest (h : Writing.Apart (us ++ [x, y])) (hlong : 2 ≤ x.row.length) :
    given (rowsOf us ++ (x.row.take 1 ++ y.row)) (x.row.drop 1) = [x.entry] := by
  have hinterleaves := interleaves_enclosing_log h
  have hframes : enclosing us x y = rowsOf us ++ (x.row.take 1 ++ y.row) ++ x.row.drop 1 := by
    simp [enclosing]
  have hcontinues : Frame.Continues (rowsOf us ++ (x.row.take 1 ++ y.row)) (x.row.drop 1) := by
    rw [hframes] at hinterleaves
    exact hinterleaves.continues h.succeed
  have hbefore := found_before_rest h hlong
  -- All but the outer entry were found before, and its last frames are still to come.
  have hsettled : ∀ w ∈ us ++ [y], ¬ Open (rowsOf us ++ (x.row.take 1 ++ y.row)) w.group := by
    intro w hw
    have hmem : (w.group, w.entry) ∈ found (rowsOf us ++ (x.row.take 1 ++ y.row)) := by
      rw [hbefore]
      exact List.mem_map_of_mem hw
    exact Assembly.not_open_of_mem_found hmem
  have hopen : Open (rowsOf us ++ (x.row.take 1 ++ y.row)) x.group := by
    obtain ⟨frame, hframe⟩ : ∃ frame, frame ∈ x.row.drop 1 := by
      rw [← List.length_pos_iff_exists_mem, List.length_drop]
      omega
    have hgroup := h.parts.2.1.isStart.group_eq frame (List.mem_of_mem_drop hframe)
    exact hgroup ▸ hcontinues frame hframe
  have hothers : (us.map fun w => (w.group, w.entry)).filter
      (fun item => Open (rowsOf us ++ (x.row.take 1 ++ y.row)) item.1) = [] := by
    rw [List.filter_eq_nil_iff]
    intro item hitem
    obtain ⟨u, hu, rfl⟩ := List.mem_map.mp hitem
    simpa using hsettled u (List.mem_append_left _ hu)
  rw [given, Assembly.found_append_right hcontinues, ← hframes, found_enclosing_log h hlong,
    List.map_append, List.filter_append, hothers]
  simp [hopen, hsettled y (by simp)]

end ParameterLog
