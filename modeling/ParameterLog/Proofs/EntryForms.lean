/-
Module: ParameterLog.Proofs.EntryForms
Purpose: which byte strings are binary forms of entries, and that none is read beyond its end.
Main exports: Bytes.slice?, Entry.HasForm, Entry.hasForm_iff, Entry.decodeInPlace,
  Entry.decodeInPlace_eq, Entry.coded_exactly
-/
import ParameterLog.Proofs.EntryCodec

/-!
Writing and reading entries undo each other. A byte string is read just if its first four bytes are
a header that the rest of it has room for (`HasForm`), and the entry that is read is written as the
same bytes again, unless there are more of them than the log takes.

Reading is defined along the string, so that it cannot leave it. A reader that goes by the places of
the fields could: `decodeInPlace` gives nothing when it looks at a place that the string does not
have. It always gives what `decode` gives (`decodeInPlace_eq`), so the checks that come before each
look are enough.
-/

namespace ParameterLog

/-- The bytes between two places, if there are such places. -/
def Bytes.slice? (start stop : Nat) (bytes : Bytes) : Option Bytes :=
  if start ≤ stop ∧ stop ≤ bytes.length then some (bytes.extract start stop) else none

theorem Bytes.slice?_eq_some {start stop : Nat} {bytes : Bytes} (hstart : start ≤ stop)
    (hstop : stop ≤ bytes.length) : bytes.slice? start stop = some (bytes.extract start stop) :=
  if_pos ⟨hstart, hstop⟩

/-- What is split off behind a place is what stands between the places there. -/
theorem Bytes.slices_of_le {start count : Nat} {bytes : Bytes}
    (h : start + count ≤ bytes.length) :
    ∃ front back, bytes.slice? start (start + count) = some front ∧
      bytes.slice? (start + count) bytes.length = some back ∧
      splitExactly? count (bytes.drop start) = some (front, back) := by
  have hfront : ((bytes.drop start).take count).length = count := by
    rw [List.length_take, List.length_drop]
    omega
  have hback : (bytes.drop (start + count)).length ≤ bytes.length - (start + count) :=
    Nat.le_of_eq List.length_drop
  refine ⟨(bytes.drop start).take count, bytes.drop (start + count), ?_, ?_, ?_⟩
  · rw [slice?_eq_some (Nat.le_add_right _ _) h, List.extract_eq_take_drop,
      Nat.add_sub_cancel_left]
  · rw [slice?_eq_some h (Nat.le_refl _), List.extract_eq_take_drop,
      List.take_of_length_le hback]
  · simp only [splitExactly?, hfront, if_true, List.drop_drop]

namespace Entry

/-! ### Binary forms -/

/-- The bytes start with the version, the byte of a kind, and the length of an identifier that there
are bytes enough for. -/
structure HasForm (bytes : Bytes) : Prop where
  header : entryHeaderSize ≤ bytes.length
  version : bytes[0]? = some entryVersion
  kind : ∃ byte, bytes[1]? = some byte ∧ byte ≤ 2
  room : Bytes.ofLittleEndian (bytes.extract 2 entryHeaderSize) ≤ bytes.length - entryHeaderSize

theorem Kind.exists_ofByte {byte : UInt8} (h : byte ≤ 2) :
    ∃ kind, Kind.ofByte byte = .ok kind := by
  have hall : ∀ n : Nat, n ≤ 2 → ∃ kind, Kind.ofByte (UInt8.ofNat n) = .ok kind := by
    intro n hn
    match n with
    | 0 => exact ⟨.untyped, rfl⟩
    | 1 => exact ⟨.parameters, rfl⟩
    | 2 => exact ⟨.parameterSet, rfl⟩
  rw [← UInt8.ofNat_toNat (x := byte)]
  exact hall _ (UInt8.le_iff_toNat_le.mp h)

theorem Kind.byte_le (kind : Kind) : kind.byte ≤ 2 := by
  cases kind <;> decide

theorem hasForm_toBytes {entry : Entry} (h : entry.id.length < Bytes.wordCount 2) :
    HasForm entry.toBytes := by
  have hlength : Bytes.ofLittleEndian (entry.toBytes.extract 2 entryHeaderSize) =
      entry.id.length := by
    have hfield : entry.toBytes.extract 2 entryHeaderSize =
        Bytes.littleEndian 2 entry.id.length := rfl
    rw [hfield, Bytes.ofLittleEndian_littleEndian, Nat.mod_eq_of_lt h]
  constructor
  case header =>
    rw [length_toBytes, size]
    omega
  case version => rfl
  case kind => exact ⟨entry.kind.byte, rfl, entry.kind.byte_le⟩
  case room =>
    rw [hlength, length_toBytes, size]
    omega

/-- A byte string can be read as an entry just if it has the form of one. -/
theorem hasForm_iff {bytes : Bytes} : HasForm bytes ↔ ∃ entry, decode bytes = .ok entry := by
  constructor
  · rintro ⟨hheader, hversion, ⟨byte, hbyte, hkind⟩, hroom⟩
    match bytes with
    | version :: kindByte :: low :: high :: rest =>
      obtain rfl : version = entryVersion := Option.some.inj hversion
      obtain rfl : kindByte = byte := Option.some.inj hbyte
      obtain ⟨kind, hkind⟩ := Kind.exists_ofByte hkind
      cases hsplit : Bytes.splitExactly? (Bytes.ofLittleEndian [low, high]) rest with
      | none =>
        have hshort := Bytes.splitExactly?_eq_none_iff.mp hsplit
        exact absurd hroom (Nat.not_le.mpr hshort)
      | some parts =>
        refine ⟨⟨kind, parts.1, parts.2⟩, ?_⟩
        simp only [decode, ne_eq, not_true_eq_false, if_false, hkind, hsplit]
    | [] | [_] | [_, _] | [_, _, _] => simp [entryHeaderSize] at hheader
  · rintro ⟨entry, hdecode⟩
    obtain ⟨hid, rfl⟩ := decode_eq_ok_iff.mp hdecode
    exact hasForm_toBytes hid

/-- An entry is written as the bytes that it was read from, unless they are too many. -/
theorem encode_of_decode {bytes : Bytes} {entry : Entry} (h : decode bytes = .ok entry) :
    entry.encode =
      if bytes.length ≤ greatestEntrySize then .ok bytes
      else .error (.recordTooLarge bytes.length greatestEntrySize) := by
  obtain ⟨hid, rfl⟩ := decode_eq_ok_iff.mp h
  rw [length_toBytes]
  split
  · next hsize => exact encode_eq_ok hsize
  · next hsize =>
    -- The identifier is within its limit, as its length has been read from two bytes.
    have hlength : ¬ greatestEntrySize < entry.id.length := Nat.not_lt.mpr (Nat.le_of_lt_succ hid)
    rw [encode, if_neg hlength, if_pos (Nat.not_le.mp hsize)]

/-! ### Reading by places -/

/-- Reads an entry by the places of its fields; nothing if it looks at a place that there is not. -/
def decodeInPlace (bytes : Bytes) : Option (Except StoreError Entry) :=
  match bytes[0]? with
  | none => some (.error (.malformedRecord .emptyEntry))
  | some version =>
    if version ≠ entryVersion then
      some (.error (.unsupportedVersion "entry" version.toNat entryVersion.toNat))
    else if bytes.length < entryHeaderSize then
      some (.error (.malformedRecord .incompleteHeader))
    else do
      let kindByte ← bytes[1]?
      match Kind.ofByte kindByte with
      | .error e => return .error e
      | .ok kind =>
        let low ← bytes[2]?
        let high ← bytes[3]?
        let idLength := Bytes.ofLittleEndian [low, high]
        let idEnd := entryHeaderSize + idLength
        if bytes.length < idEnd then
          return .error (.malformedRecord (.idExceedsEntry idLength bytes.length))
        else
          let id ← bytes.slice? entryHeaderSize idEnd
          let data ← bytes.slice? idEnd bytes.length
          return .ok ⟨kind, id, data⟩

/-- Reading by places never looks at a place that there is not. -/
theorem decodeInPlace_eq (bytes : Bytes) : decodeInPlace bytes = some (decode bytes) := by
  match bytes with
  | [] => rfl
  | version :: rest =>
    by_cases hversion : version = entryVersion
    · subst hversion
      match rest with
      | [] | [_] | [_, _] => rfl
      | kindByte :: low :: high :: rest =>
        -- The header is there. What may be missing is the end of the identifier.
        have hheader : ¬ (entryVersion :: kindByte :: low :: high :: rest).length <
            entryHeaderSize := by simp [entryHeaderSize]
        simp only [decodeInPlace, decode, List.getElem?_cons_zero, List.getElem?_cons_succ,
          ne_eq, not_true_eq_false, if_false, hheader, Option.bind_eq_bind, Option.bind_some]
        cases Kind.ofByte kindByte with
        | error e => rfl
        | ok kind =>
          dsimp only
          generalize Bytes.ofLittleEndian [low, high] = idLength
          by_cases hend : (entryVersion :: kindByte :: low :: high :: rest).length <
              entryHeaderSize + idLength
          · have hshort : rest.length < idLength := by
              simp only [entryHeaderSize, List.length_cons] at hend
              omega
            rw [if_pos hend, Bytes.splitExactly?_eq_none_iff.mpr hshort]
            rfl
          · obtain ⟨id, data, hid, hdata, hsplit⟩ := Bytes.slices_of_le (Nat.not_lt.mp hend)
            have hsplit : Bytes.splitExactly? idLength rest = some (id, data) := hsplit
            rw [if_neg hend, hid, Option.bind_some, hdata, hsplit]
            rfl
    · simp [decodeInPlace, decode, hversion]

/-- The binary form of entries is exact. An entry can be written just if its form is within the size
limit, and what was written is read back as the entry. A byte string can be read just if it has the
form of an entry; then the entry is written as the same byte string again if it is within the size
limit, and is refused for its size if not. No reading looks beyond the end of the byte string. -/
theorem coded_exactly (entry : Entry) (bytes : Bytes) :
    ((∃ written, entry.encode = .ok written) ↔
      entryHeaderSize + entry.id.length + entry.data.length ≤ greatestEntrySize) ∧
    (∀ written, entry.encode = .ok written → decode written = .ok entry) ∧
    ((∃ found, decode bytes = .ok found) ↔ HasForm bytes) ∧
    (∀ found, decode bytes = .ok found → found.encode =
      if bytes.length ≤ greatestEntrySize then .ok bytes
      else .error (.recordTooLarge bytes.length greatestEntrySize)) ∧
    decodeInPlace bytes = some (decode bytes) := by
  refine ⟨⟨?_, fun hsize => ⟨_, encode_eq_ok hsize⟩⟩, ?_, hasForm_iff.symm,
    fun _ => encode_of_decode, decodeInPlace_eq bytes⟩
  · rintro ⟨written, hwritten⟩
    exact (size_of_encode hwritten).1
  · intro written hwritten
    obtain ⟨hsize, rfl⟩ := size_of_encode hwritten
    exact decode_toBytes hsize

end Entry
end ParameterLog
