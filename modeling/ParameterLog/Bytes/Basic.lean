/-
Module: ParameterLog.Bytes.Basic
Purpose: byte strings, little-endian words, and the text that bytes spell.
Main exports: Bytes, Bytes.littleEndian, Bytes.ofLittleEndian, Bytes.wordCount,
  Bytes.splitExactly?, Bytes.ofText, Bytes.toText?
-/

/-!
A log is a string of bytes and everything stored in it is cut out of one. Byte strings are lists, so
that what a reader leaves behind is a tail of what it was given. Lengths are written as
little-endian words; `ofLittleEndian_littleEndian` and `littleEndian_ofLittleEndian` say that a word
of a given width and the number it spells determine each other.
-/

namespace ParameterLog

/-- A string of bytes. -/
abbrev Bytes := List UInt8

namespace Bytes

/-- The low `width` bytes of a number, least significant first. -/
def littleEndian : Nat → Nat → Bytes
  | 0, _ => []
  | width + 1, n => UInt8.ofNat n :: littleEndian width (n / 256)

/-- The number that bytes spell, least significant first. -/
def ofLittleEndian : Bytes → Nat
  | [] => 0
  | b :: rest => b.toNat + 256 * ofLittleEndian rest

/-- The number of words of a width. -/
def wordCount : Nat → Nat
  | 0 => 1
  | width + 1 => 256 * wordCount width

@[simp] theorem length_littleEndian (width n : Nat) : (littleEndian width n).length = width := by
  induction width generalizing n with
  | zero => rfl
  | succ width ih => simp [littleEndian, ih]

theorem ofLittleEndian_littleEndian (width n : Nat) :
    ofLittleEndian (littleEndian width n) = n % wordCount width := by
  induction width generalizing n with
  | zero => simp [littleEndian, ofLittleEndian, wordCount, Nat.mod_one]
  | succ width ih =>
    have hb : (UInt8.ofNat n).toNat = n % 256 := by simp
    rw [littleEndian, ofLittleEndian, ih, hb, wordCount, Nat.mod_mul]

theorem littleEndian_ofLittleEndian (bytes : Bytes) :
    littleEndian bytes.length (ofLittleEndian bytes) = bytes := by
  induction bytes with
  | nil => rfl
  | cons b rest ih =>
    have hb := b.toNat_lt
    have hdiv : (b.toNat + 256 * ofLittleEndian rest) / 256 = ofLittleEndian rest := by omega
    simp only [ofLittleEndian, List.length_cons, littleEndian, hdiv, ih]
    congr 1
    apply UInt8.toNat_inj.mp
    simp only [UInt8.toNat_ofNat']
    omega

theorem ofLittleEndian_lt (bytes : Bytes) : ofLittleEndian bytes < wordCount bytes.length := by
  induction bytes with
  | nil => simp [ofLittleEndian, wordCount]
  | cons b rest ih =>
    have hb := b.toNat_lt
    simp only [ofLittleEndian, List.length_cons, wordCount]
    omega

/-- The first `n` bytes and what follows them, or nothing when there are fewer than `n`. -/
def splitExactly? (n : Nat) (bytes : Bytes) : Option (Bytes × Bytes) :=
  let front := bytes.take n
  if front.length = n then some (front, bytes.drop n) else none

theorem splitExactly?_append (front rest : Bytes) :
    splitExactly? front.length (front ++ rest) = some (front, rest) := by
  simp [splitExactly?]

theorem splitExactly?_eq_some {n : Nat} {bytes front rest : Bytes}
    (h : splitExactly? n bytes = some (front, rest)) :
    bytes = front ++ rest ∧ front.length = n := by
  simp only [splitExactly?] at h
  split at h
  · next hlen =>
    simp only [Option.some.injEq, Prod.mk.injEq] at h
    obtain ⟨rfl, rfl⟩ := h
    exact ⟨(List.take_append_drop n bytes).symm, hlen⟩
  · simp at h

theorem splitExactly?_eq_none_iff {n : Nat} {bytes : Bytes} :
    splitExactly? n bytes = none ↔ bytes.length < n := by
  simp only [splitExactly?, List.length_take]
  split <;> simp <;> omega

/-- The UTF-8 bytes of a text. -/
def ofText (text : String) : Bytes := text.toUTF8.data.toList

/-- The text that bytes spell in UTF-8, if they spell one. -/
def toText? (bytes : Bytes) : Option String := String.fromUTF8? ⟨bytes.toArray⟩

theorem toText?_ofText (text : String) : toText? (ofText text) = some text := by
  have h : (⟨text.toUTF8.data.toList.toArray⟩ : ByteArray) = text.toByteArray := by simp
  simp only [toText?, ofText, h, String.fromUTF8?]
  simp [text.isValidUTF8, String.fromUTF8]

end Bytes
end ParameterLog
