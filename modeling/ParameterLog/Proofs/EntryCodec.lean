/-
Module: ParameterLog.Proofs.EntryCodec
Purpose: the binary form of an entry determines the entry.
Main exports: Entry.encode_eq_ok, Entry.size_of_encode, Entry.decode_eq_ok_iff,
  Entry.decode_toBytes
-/
import ParameterLog.Entry

/-!
Entries within the size limit can be written, and reading what was written gives the entry back. The
limit on the whole entry implies the one on its identifier. Reading has no limit on the whole: a
byte string is read as an entry just if it is the binary form of it and the length of the identifier
fits its two bytes (`decode_eq_ok_iff`).
-/

namespace ParameterLog.Entry

theorem encode_eq_ok {entry : Entry} (h : entry.size ≤ greatestEntrySize) :
    entry.encode = .ok entry.toBytes := by
  have hid : ¬ greatestEntrySize < entry.id.length := by
    simp only [size] at h
    omega
  have hsize : ¬ greatestEntrySize < entry.size := Nat.not_lt.mpr h
  simp [encode, hid, hsize]

theorem size_of_encode {entry : Entry} {bytes : Bytes} (h : entry.encode = .ok bytes) :
    entry.size ≤ greatestEntrySize ∧ bytes = entry.toBytes := by
  simp only [encode] at h
  split at h
  · simp at h
  · split at h
    · simp at h
    · next hsize =>
      simp only [Except.ok.injEq] at h
      exact ⟨Nat.not_lt.mp hsize, h.symm⟩

theorem toBytes_ne_nil (entry : Entry) : entry.toBytes ≠ [] := by
  simp [toBytes]

theorem Kind.eq_byte_of_ofByte {byte : UInt8} {kind : Kind} (h : Kind.ofByte byte = .ok kind) :
    byte = kind.byte := by
  unfold Kind.ofByte at h
  split at h
  · next hbyte => rw [hbyte, ← Except.ok.inj h, Kind.byte]
  · split at h
    · next hbyte => rw [hbyte, ← Except.ok.inj h, Kind.byte]
    · split at h
      · next hbyte => rw [hbyte, ← Except.ok.inj h, Kind.byte]
      · contradiction

/-- An entry is read from its binary form, whatever its size, and from nothing else. -/
theorem decode_eq_ok_iff {bytes : Bytes} {entry : Entry} :
    decode bytes = .ok entry ↔
      entry.id.length < Bytes.wordCount 2 ∧ bytes = entry.toBytes := by
  constructor
  · intro h
    unfold decode at h
    split at h
    · contradiction
    · split at h
      · contradiction
      · next version rest hversion =>
        obtain rfl := Decidable.not_not.mp hversion
        split at h
        · next kindByte low high rest =>
          split at h
          · contradiction
          · next kind hkind =>
            dsimp only at h
            split at h
            · contradiction
            · next id data hsplit =>
              obtain rfl := Except.ok.inj h
              obtain ⟨rfl, hlength⟩ := Bytes.splitExactly?_eq_some hsplit
              have hword : Bytes.littleEndian 2 id.length = [low, high] := by
                rw [hlength]
                exact Bytes.littleEndian_ofLittleEndian [low, high]
              refine ⟨hlength ▸ Bytes.ofLittleEndian_lt [low, high], ?_⟩
              rw [toBytes, hword, Kind.eq_byte_of_ofByte hkind]
              rfl
        · contradiction
  · rintro ⟨hid, rfl⟩
    have hlength :
        Bytes.ofLittleEndian (Bytes.littleEndian 2 entry.id.length) = entry.id.length := by
      rw [Bytes.ofLittleEndian_littleEndian, Nat.mod_eq_of_lt hid]
    have htwo : Bytes.littleEndian 2 entry.id.length =
        [UInt8.ofNat entry.id.length, UInt8.ofNat (entry.id.length / 256)] := rfl
    rw [htwo] at hlength
    have hsplit := Bytes.splitExactly?_append entry.id entry.data
    simp only [toBytes, decode, htwo, List.cons_append, List.nil_append, ne_eq, not_true_eq_false,
      if_false, Kind.ofByte_byte, hlength, hsplit]

/-- What was written is read back. -/
theorem decode_toBytes {entry : Entry} (h : entry.size ≤ greatestEntrySize) :
    decode entry.toBytes = .ok entry := by
  refine decode_eq_ok_iff.mpr ⟨?_, rfl⟩
  simp only [size, greatestEntrySize, entryHeaderSize, Bytes.wordCount] at *
  omega

/-- Only the binary form of an entry of the same size can be read as that entry. -/
theorem size_of_decode {bytes : Bytes} {entry : Entry} (h : decode bytes = .ok entry) :
    bytes.length = entry.size := by
  rw [(decode_eq_ok_iff.mp h).2, length_toBytes]

end ParameterLog.Entry
