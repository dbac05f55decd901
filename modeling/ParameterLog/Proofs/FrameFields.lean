/-
Module: ParameterLog.Proofs.FrameFields
Purpose: the fields of a frame one after the other, and what bytes are too few for them.
Main exports: Bytes.word?, Bytes.counted?, Frame.fields?_eq, Frame.next_eq_finished_iff,
  Frame.next_eq_truncated_iff
-/
import ParameterLog.Proofs.FrameScanning

/-!
Behind its version byte a frame is two words and two byte strings that are told how long they are,
each read where the one before it ends (`fields?_eq`). Whatever bytes come, enough of them hold all
four (`exists_fields`). So where reading finds a frame cut off, the bytes that are there could be
continued to a frame: they are a proper beginning of one (`next_eq_truncated_iff`).
-/

namespace ParameterLog

namespace Bytes

/-- The number that the first two bytes spell, and what follows them. -/
def word? (bytes : Bytes) : Option (Nat × Bytes) :=
  (splitExactly? 2 bytes).map fun (front, rest) => (ofLittleEndian front, rest)

/-- The bytes behind a word that tells how many they are, and what follows them. -/
def counted? (bytes : Bytes) : Option (Bytes × Bytes) :=
  (word? bytes).bind fun (length, rest) => splitExactly? length rest

@[simp] theorem word?_cons_cons (low high : UInt8) (rest : Bytes) :
    word? (low :: high :: rest) = some (ofLittleEndian [low, high], rest) := by
  simp [word?, splitExactly?]

theorem word?_eq_none {bytes : Bytes} (h : bytes.length < 2) : word? bytes = none := by
  simp [word?, splitExactly?_eq_none_iff.mpr h]

theorem exists_word {bytes : Bytes} (h : 2 ≤ bytes.length) :
    ∃ n rest, word? bytes = some (n, rest) ∧ n ≤ greatestField ∧
      bytes.length = rest.length + 2 := by
  match bytes, h with
  | low :: high :: rest, _ =>
    exact ⟨_, rest, word?_cons_cons low high rest, Frame.field_le low high, rfl⟩

theorem exists_counted {bytes : Bytes} (h : 2 + greatestField ≤ bytes.length) :
    ∃ front rest, counted? bytes = some (front, rest) ∧
      bytes.length ≤ rest.length + (2 + greatestField) := by
  obtain ⟨n, tail, hword, hn, hlength⟩ := exists_word (Nat.le_trans (Nat.le_add_right _ _) h)
  cases hsplit : splitExactly? n tail with
  | none =>
    have := splitExactly?_eq_none_iff.mp hsplit
    omega
  | some found =>
    obtain ⟨front, rest⟩ := found
    obtain ⟨rfl, hfront⟩ := splitExactly?_eq_some hsplit
    refine ⟨front, rest, ?_, ?_⟩
    · simp [counted?, hword, hsplit]
    · rw [hlength, List.length_append]
      omega

end Bytes

namespace Frame

open Bytes (word? counted? word?_eq_none)

/-- The fields of a frame, each behind the one before. -/
theorem fields?_eq (input : Bytes) :
    fields? input =
      (word? input).bind fun (total, input) =>
      (word? input).bind fun (index, input) =>
      (counted? input).bind fun (group, input) =>
      (counted? input).bind fun (data, input) =>
        some (⟨UInt16.ofNat total, UInt16.ofNat index, group, data⟩, input) := by
  rcases input with _ | ⟨t0, _ | ⟨t1, _ | ⟨i0, _ | ⟨i1, _ | ⟨g0, _ | ⟨g1, rest⟩⟩⟩⟩⟩⟩
  -- Too few bytes for the words in front of the group.
  iterate 6 · simp [fields?, counted?, word?_eq_none]
  cases hgroup : Bytes.splitExactly? (Bytes.ofLittleEndian [g0, g1]) rest with
  | none => simp [fields?, counted?, hgroup]
  | some found =>
    obtain ⟨group, tail⟩ := found
    rcases tail with _ | ⟨d0, _ | ⟨d1, tail⟩⟩
    · simp [fields?, counted?, hgroup, word?_eq_none]
    · simp [fields?, counted?, hgroup, word?_eq_none]
    · cases hdata : Bytes.splitExactly? (Bytes.ofLittleEndian [d0, d1]) tail <;>
        simp [fields?, counted?, hgroup, hdata]

/-- Enough bytes hold the fields of a frame, whatever bytes they are. -/
theorem exists_fields {input : Bytes} (h : 8 + 2 * greatestField ≤ input.length) :
    ∃ frame rest, fields? input = some (frame, rest) := by
  obtain ⟨total, input₁, htotal, -, hlength₁⟩ :=
    Bytes.exists_word (show 2 ≤ input.length by omega)
  obtain ⟨index, input₂, hindex, -, hlength₂⟩ :=
    Bytes.exists_word (show 2 ≤ input₁.length by omega)
  obtain ⟨group, input₃, hgroup, hlength₃⟩ :=
    Bytes.exists_counted (show 2 + greatestField ≤ input₂.length by omega)
  obtain ⟨data, rest, hdata, -⟩ :=
    Bytes.exists_counted (show 2 + greatestField ≤ input₃.length by omega)
  refine ⟨⟨UInt16.ofNat total, UInt16.ofNat index, group, data⟩, rest, ?_⟩
  simp [fields?_eq, htotal, hindex, hgroup, hdata]

/-- Where the fields run out, the bytes are a proper beginning of a frame. -/
theorem torn_of_fields {body : Bytes} (h : fields? body = none) : Torn (frameVersion :: body) := by
  -- With enough bytes behind them they hold a frame; it does not end among those that are there.
  let more : Bytes := List.replicate (8 + 2 * greatestField) 0
  have hlong : 8 + 2 * greatestField ≤ (body ++ more).length := by simp [more]
  obtain ⟨frame, rest, hread⟩ := exists_fields hlong
  obtain ⟨hfits, hbytes⟩ := fields?_eq_some hread
  have hwhole : frameVersion :: body <+: frame.toBytes ++ rest := ⟨more, hbytes⟩
  have hframe : frame.toBytes <+: frame.toBytes ++ rest := List.prefix_append _ _
  have hshort : (frameVersion :: body).length < frame.toBytes.length := by
    apply Nat.not_le.mp
    intro hwithin
    obtain ⟨tail, htail⟩ := List.prefix_of_prefix_length_le hframe hwhole hwithin
    have hnext := next_append hfits 0 tail
    rw [htail] at hnext
    simp [next, h] at hnext
  refine ⟨frame, hfits, List.prefix_of_prefix_length_le hwhole hframe (Nat.le_of_lt hshort), ?_⟩
  rwa [length_toBytes] at hshort

/-- Reading ends cleanly in front of no bytes, and in front of no others. -/
theorem next_eq_finished_iff {offset : Nat} {input : Bytes} :
    next offset input = .finished ↔ input = [] := by
  cases input with
  | nil => simp [next]
  | cons version body =>
    simp only [next, reduceCtorEq, iff_false]
    split
    · simp
    · split <;> simp

/-- A frame is found cut off in the proper beginnings of frames, and in no other bytes. -/
theorem next_eq_truncated_iff {offset : Nat} {input : Bytes} :
    next offset input = .failed (.truncatedFrame offset) ↔ input ≠ [] ∧ Torn input := by
  constructor
  · intro h
    match input with
    | [] => simp [next] at h
    | version :: body =>
      refine ⟨List.cons_ne_nil _ _, ?_⟩
      simp only [next] at h
      split at h
      · simp at h
      · next hversion =>
        split at h
        · simp at h
        · next hfields =>
          rw [Decidable.not_not.mp hversion]
          exact torn_of_fields hfields
  · rintro ⟨hne, htorn⟩
    rw [next_torn htorn, if_neg hne]

end Frame
end ParameterLog
