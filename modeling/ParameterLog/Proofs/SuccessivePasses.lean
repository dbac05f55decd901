/-
Module: ParameterLog.Proofs.SuccessivePasses
Purpose: putting any frames together in several passes gives what one pass gives.
Main exports: Assembly.Settled, Assembly.not_settled_iff, Assembly.passes_compose,
  Assembly.passes, Assembly.passes_append
-/
import ParameterLog.Proofs.Reassembly

/-!
A group of frames is settled once it is given out as an entry or dropped (`Settled`). The frames of
the other groups are kept and stand in front of those that come next, group by group and sorted.
Whatever the frames are, as long as none comes for a group that is settled, that makes no
difference: a pass over the frames that are kept and new ones leaves what one pass over all frames
leaves, and the entries of both passes are those of the one (`passes_compose`). By induction the
same holds of any number of passes (`passes_append`).
-/

namespace ParameterLog.Assembly

open ParameterLog.Frame (groupIds ofGroup Waiting Open Continues)

/-- A group that has begun is given out as an entry or dropped. -/
def Settled (frames : List Frame) (id : Bytes) : Prop :=
  id ∈ groupIds frames ∧
    ((∃ entry, resolve frames id = .entry entry) ∨ ∃ report, resolve frames id = .dropped report)

variable {frames xs ys : List Frame} {id : Bytes}

/-- A group is given out or dropped if it does not wait. -/
theorem not_waiting_iff :
    ¬ Waiting frames id ↔
      (∃ entry, resolve frames id = .entry entry) ∨
        ∃ report, resolve frames id = .dropped report := by
  cases hverdict : Verdict.ofGroup (ofGroup frames id) with
  | complete bytes =>
    cases hdecode : Entry.decode bytes <;>
      simp [Waiting, resolve, Resolution.ofGroup, hverdict, hdecode]
  | incomplete => simp [Waiting, resolve, Resolution.ofGroup, hverdict]
  | contradictory reason => simp [Waiting, resolve, Resolution.ofGroup, hverdict]

/-- A group is not settled if it has not begun or if it waits. -/
theorem not_settled_iff : ¬ Settled frames id ↔ Open frames id := by
  rw [Settled, ← not_waiting_iff, not_and, Decidable.not_not, Open]

/-- No frame of a group that is settled is kept. -/
theorem settled_iff :
    Settled frames id ↔ id ∈ groupIds frames ∧ id ∉ groupIds (ofFrames frames).remaining := by
  rw [Settled, ← not_waiting_iff, groupIds_remaining, List.mem_filter, decide_eq_true_eq]
  refine and_congr_right fun hid => ?_
  simp [hid]

/-- Two passes give out the entries that one pass gives out. -/
theorem entries_append_perm (h : Continues xs ys) :
    ((ofFrames xs).entries ++ (ofFrames ((ofFrames xs).remaining ++ ys)).entries).Perm
      (ofFrames (xs ++ ys)).entries := by
  simp only [entries_ofFrames, ← List.map_append]
  exact (found_append_perm h).map _

theorem continues_nil (xs : List Frame) : Continues xs [] :=
  fun _ hframe => absurd hframe List.not_mem_nil

/-- A second pass over the frames that are kept keeps them as they are. -/
theorem remaining_remaining (xs : List Frame) :
    (ofFrames (ofFrames xs).remaining).remaining = (ofFrames xs).remaining := by
  simpa using remaining_append (continues_nil xs)

/-- The frames that are kept hold no entry. -/
theorem entries_remaining (xs : List Frame) : (ofFrames (ofFrames xs).remaining).entries = [] := by
  have hperm := entries_append_perm (continues_nil xs)
  simp only [List.append_nil] at hperm
  have hlength := hperm.length_eq
  rw [List.length_append] at hlength
  exact List.eq_nil_of_length_eq_zero (by omega)

/-- Two passes come to what one pass comes to: if no frame of the second one belongs to a group that
the first one settles, then they leave the same frames in the same order and give out the same
entries. In particular a pass over the frames that are kept changes nothing about them. -/
theorem passes_compose (h : ∀ frame ∈ ys, ¬ Settled xs frame.group) :
    (ofFrames ((ofFrames xs).remaining ++ ys)).remaining = (ofFrames (xs ++ ys)).remaining ∧
      ((ofFrames xs).entries ++ (ofFrames ((ofFrames xs).remaining ++ ys)).entries).Perm
        (ofFrames (xs ++ ys)).entries ∧
      (ofFrames (ofFrames xs).remaining).remaining = (ofFrames xs).remaining ∧
      (ofFrames (ofFrames xs).remaining).entries = [] := by
  have hcontinues : Continues xs ys := fun frame hframe => not_settled_iff.mp (h frame hframe)
  exact ⟨remaining_append hcontinues, entries_append_perm hcontinues, remaining_remaining xs,
    entries_remaining xs⟩

/-- The second of two frames, an entry of its own, and a frame that announces none. -/
def firstBatch : List Frame :=
  [⟨2, 1, [7], [65]⟩, ⟨1, 0, [8], [1, 0, 0, 0]⟩, ⟨0, 0, [9], []⟩]

/-- A frame that contradicts nothing and can never be completed, the frame that was missing, and an
entry of its own. -/
def secondBatch : List Frame :=
  [⟨1, 5, [6], []⟩, ⟨2, 0, [7], [1, 1, 0, 0]⟩, ⟨1, 0, [5], [1, 2, 0, 0]⟩]

theorem passes_compose_batches :
    (∀ frame ∈ secondBatch, ¬ Settled firstBatch frame.group) ∧
      (ofFrames ((ofFrames firstBatch).remaining ++ secondBatch)).remaining =
        (ofFrames (firstBatch ++ secondBatch)).remaining ∧
      ((ofFrames firstBatch).entries ++
        (ofFrames ((ofFrames firstBatch).remaining ++ secondBatch)).entries).Perm
        (ofFrames (firstBatch ++ secondBatch)).entries ∧
      (ofFrames (ofFrames firstBatch).remaining).remaining = (ofFrames firstBatch).remaining ∧
      (ofFrames (ofFrames firstBatch).remaining).entries = [] := by
  have hopen : ∀ frame ∈ secondBatch, Open firstBatch frame.group := by decide +kernel
  have hsettled : ∀ frame ∈ secondBatch, ¬ Settled firstBatch frame.group :=
    fun frame hframe => not_settled_iff.mpr (hopen frame hframe)
  exact ⟨hsettled, passes_compose hsettled⟩

/-! ### Any number of passes -/

/-- Puts batches of frames together one after the other, each with the frames kept before it. -/
def passes (kept : List Frame) : List (List Frame) → List Entry × List Frame
  | [] => ([], kept)
  | batch :: rest =>
    let assembly := ofFrames (kept ++ batch)
    let others := passes assembly.remaining rest
    (assembly.entries ++ others.1, others.2)

/-- No frame of a batch belongs to a group that is settled before it. -/
def Steady (xs : List Frame) : List (List Frame) → Prop
  | [] => True
  | batch :: rest => (∀ frame ∈ batch, ¬ Settled xs frame.group) ∧ Steady (xs ++ batch) rest

/-- Passes over one batch after the other come to what one pass over all frames comes to. -/
theorem passes_append {batches : List (List Frame)} (h : Steady xs batches) :
    (passes (ofFrames xs).remaining batches).2 = (ofFrames (xs ++ batches.flatten)).remaining ∧
      ((ofFrames xs).entries ++ (passes (ofFrames xs).remaining batches).1).Perm
        (ofFrames (xs ++ batches.flatten)).entries := by
  -- On the batches; those that have been taken in are moved over to the frames of the first pass.
  induction batches generalizing xs with
  | nil => simp [passes]
  | cons batch rest ih =>
    obtain ⟨hbatch, hrest⟩ := h
    have hcontinues : Continues xs batch :=
      fun frame hframe => not_settled_iff.mp (hbatch frame hframe)
    obtain ⟨hremaining, hentries⟩ := ih hrest
    simp only [passes, remaining_append hcontinues, List.flatten_cons, ← List.append_assoc]
    exact ⟨hremaining, ((entries_append_perm hcontinues).append_right _).trans hentries⟩

end ParameterLog.Assembly
