/-
Module: ParameterLog.Bytes.Pieces
Purpose: cutting a byte string into pieces of one size.
Main exports: Bytes.pieces, Bytes.pieces_induction, Bytes.flatten_pieces
-/
import ParameterLog.Bytes.Basic

/-!
A byte string is cut from the front into pieces of a given positive size; the last piece holds what
is left and is never empty. Joining the pieces gives the string back (`flatten_pieces`).
-/

namespace ParameterLog.Bytes

/-- Cuts off pieces of `size + 1` bytes and puts them behind the pieces already cut, newest
first. -/
def piecesOnto (size : Nat) (bytes : Bytes) (done : List Bytes) : List Bytes :=
  match bytes with
  | [] => done.reverse
  | b :: rest => piecesOnto size (rest.drop size) ((b :: rest.take size) :: done)
termination_by bytes.length
decreasing_by simp only [List.length_drop, List.length_cons]; omega

/-- The pieces of `size` bytes that a byte string consists of, the last one possibly shorter. A size
of zero counts as one. -/
def pieces (size : Nat) (bytes : Bytes) : List Bytes := piecesOnto (size - 1) bytes []

theorem piecesOnto_eq (size : Nat) (bytes : Bytes) (done : List Bytes) :
    piecesOnto size bytes done = done.reverse ++ piecesOnto size bytes [] := by
  induction h : bytes.length using Nat.strongRecOn generalizing bytes done with
  | ind n ih =>
    match bytes, h with
    | [], _ => simp [piecesOnto]
    | b :: rest, h =>
      have shorter : (rest.drop size).length < n := by
        simp only [List.length_drop, ← h, List.length_cons]
        omega
      rw [piecesOnto, ih _ shorter _ _ rfl, piecesOnto, ih _ shorter _ [b :: rest.take size] rfl]
      simp

@[simp] theorem pieces_nil (size : Nat) : pieces size [] = [] := by
  simp [pieces, piecesOnto]

/-- A string that is not empty gives its first `size` bytes and then the pieces of the rest. -/
theorem pieces_of_ne_nil {size : Nat} (hsize : 0 < size) {bytes : Bytes} (h : bytes ≠ []) :
    pieces size bytes = bytes.take size :: pieces size (bytes.drop size) := by
  obtain ⟨b, rest, rfl⟩ := List.exists_cons_of_ne_nil h
  obtain ⟨n, rfl⟩ : ∃ n, size = n + 1 := ⟨size - 1, by omega⟩
  simp only [pieces, Nat.add_sub_cancel, List.take_succ_cons, List.drop_succ_cons]
  rw [piecesOnto, piecesOnto_eq]
  simp

/-- What holds of no bytes, and of bytes if it holds of what is left behind their first piece, holds
of all bytes. -/
theorem pieces_induction {size : Nat} (hsize : 0 < size) {motive : Bytes → Prop} (nil : motive [])
    (piece : ∀ bytes, bytes ≠ [] → motive (bytes.drop size) → motive bytes) (bytes : Bytes) :
    motive bytes := by
  induction h : bytes.length using Nat.strongRecOn generalizing bytes with
  | ind n ih =>
    by_cases hempty : bytes = []
    · rwa [hempty]
    · have hpos := List.length_pos_iff.mpr hempty
      refine piece bytes hempty (ih _ ?_ _ rfl)
      rw [List.length_drop]
      omega

/-- No byte is lost or moved by cutting. -/
theorem flatten_pieces {size : Nat} (hsize : 0 < size) (bytes : Bytes) :
    (pieces size bytes).flatten = bytes := by
  induction bytes using pieces_induction hsize with
  | nil => simp
  | piece bytes hne ih =>
    rw [pieces_of_ne_nil hsize hne, List.flatten_cons, ih, List.take_append_drop]

end ParameterLog.Bytes
