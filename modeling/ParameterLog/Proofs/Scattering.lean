/-
Module: ParameterLog.Proofs.Scattering
Purpose: logs that hold some of the frames of several entries, in any order.
Main exports: Frame.Scatters, Frame.Scatters.fits, Frame.Scatters.cuttable
-/
import ParameterLog.Proofs.Writings

/-!
Nothing makes sure that the frames of an entry come in the order of their indices, that they come
next to each other, or that they come at all. As long as a group is used for one writing and each of
its frames comes at most once (`Scatters`), a group with frames missing waits for them, whatever
order the others stand in. So wherever such a log is cut, no frame behind the cut belongs to a group
that is settled before it (`cuttable`).
-/

namespace ParameterLog.Frame

/-- The frames are those of writings, each of them at most once, in any order. -/
structure Scatters (frames : List Frame) (ws : List Writing) : Prop where
  parts : ∀ w ∈ ws, (ofGroup frames w.group).Subperm w.row
  known : ∀ frame ∈ frames, ∃ w ∈ ws, frame.group = w.group

namespace Scatters

variable {frames xs ys : List Frame} {ws : List Writing}

theorem fits (h : Scatters frames ws) (hws : ∀ w ∈ ws, w.Succeeds) :
    ∀ frame ∈ frames, frame.Fits := by
  intro frame hframe
  obtain ⟨w, hw, hgroup⟩ := h.known frame hframe
  apply (hws w hw).fits frame
  exact (h.parts w hw).subset (mem_ofGroup.mpr ⟨hframe, hgroup⟩)

/-- Wherever the log is cut, the frames behind the cut are of groups that are not settled. -/
theorem continues (h : Scatters (xs ++ ys) ws) (hws : ∀ w ∈ ws, w.Succeeds) :
    Continues xs ys := by
  intro frame hframe hbegun
  obtain ⟨w, hw, hgroup⟩ := h.known frame (List.mem_append_right _ hframe)
  rw [hgroup] at hbegun ⊢
  have hpart := h.parts w hw
  rw [ofGroup_append] at hpart
  have hlater : w.group ∈ groupIds ys := mem_groupIds.mpr ⟨frame, hframe, hgroup⟩
  have hlaterPos := List.length_pos_iff.mpr (ofGroup_ne_nil hlater)
  have hcount := hpart.length_le
  rw [List.length_append] at hcount
  have hfront := (List.sublist_append_left (ofGroup xs w.group) (ofGroup ys w.group)).subperm
  apply Assembly.incomplete_of_subperm (hws w hw).isStart (hfront.trans hpart)
    (ofGroup_ne_nil hbegun)
  omega

theorem cuttable (h : Scatters frames ws) (hws : ∀ w ∈ ws, w.Succeeds) : Cuttable frames := by
  rintro xs ys rfl
  exact h.continues hws

end Scatters

end ParameterLog.Frame
