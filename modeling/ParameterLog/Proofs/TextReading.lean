/-
Module: ParameterLog.Proofs.TextReading
Purpose: a text that was written between quotes is read back as it was.
Main exports: Json.skipBlanks_cons, Json.scanText_escapeByte, Json.readText_quoted
-/
import ParameterLog.Json.Printer
import ParameterLog.Json.Reader

/-!
Each byte of a text is written as itself or as an escape, and reading undoes this byte by byte
(`scanText_escapeByte`): the escape of a quote or a backslash stands for it, a control has its
letter or its two digits. So a reader of a quoted text comes to the quote that closes it with the
bytes of the text in hand (`readText_quoted`).
-/

namespace ParameterLog.Json

open Bytes (ofText digitByte)

/-- A byte that may stand between the parts of a value. -/
abbrev IsBlank (byte : UInt8) : Prop := byte = 0x20 ∨ byte = 0x09 ∨ byte = 0x0a ∨ byte = 0x0d

theorem skipBlanks_cons {byte : UInt8} (h : ¬ IsBlank byte) (rest : Bytes) :
    skipBlanks (byte :: rest) = byte :: rest := by
  rw [skipBlanks, if_neg h]

/-! ### Escapes -/

theorem escaped?_of_shortEscape? {byte letter : UInt8} (h : shortEscape? byte = some letter) :
    escaped? letter = some byte := by
  unfold shortEscape? at h
  repeat' split at h
  all_goals
    first
    | contradiction
    | next hbyte =>
      obtain rfl := hbyte
      obtain rfl := Option.some.inj h
      rfl

theorem codePointBytes_toNat {byte : UInt8} (h : byte < 0x20) :
    codePointBytes byte.toNat = [byte] := by
  have hall : ∀ n, n < 0x20 → codePointBytes n = [UInt8.ofNat n] := by decide
  rw [hall byte.toNat h, UInt8.ofNat_toNat]

theorem codeUnit?_control (byte : UInt8) :
    codeUnit? 0x30 0x30 (digitByte (byte.toNat / 16)) (digitByte (byte.toNat % 16)) =
      some byte.toNat := by
  have hbyte := byte.toNat_lt
  have hhigh := Bytes.hexValue?_digitByte (show byte.toNat / 16 < 16 by omega)
  have hlow := Bytes.hexValue?_digitByte (show byte.toNat % 16 < 16 by omega)
  have hzero : Bytes.hexValue? 0x30 = some 0 := rfl
  simp only [codeUnit?, hzero, hhigh, hlow, Option.bind_eq_bind, Option.bind_some, Option.pure_def,
    Option.some.injEq]
  omega

theorem readEscape_control {byte : UInt8} (h : byte < 0x20) (rest : Bytes) :
    readEscape (0x75 :: 0x30 :: 0x30 :: digitByte (byte.toNat / 16) ::
      digitByte (byte.toNat % 16) :: rest) = .ok ([byte], rest) := by
  have hsmall : byte.toNat < 0x20 := h
  have hends : endsPair byte.toNat = false := by
    rw [endsPair, decide_eq_false (by omega), Bool.false_and]
  have hleads : leadsPair byte.toNat = false := by
    rw [leadsPair, decide_eq_false (by omega), Bool.false_and]
  have hletter : escaped? 0x75 = none := rfl
  simp only [readEscape, hletter, if_true, readCodePoint, readUnit, codeUnit?_control, hends,
    hleads, Bool.false_eq_true, if_false, codePointBytes_toNat h]

theorem scanText_escape {rest after bytes : Bytes} (h : readEscape rest = .ok (bytes, after))
    (done : Bytes) : scanText (0x5c :: rest) done = scanText after (bytes ++ done) := by
  rw [scanText, if_neg (by decide), if_pos rfl]
  split
  · next herror =>
    rw [h] at herror
    contradiction
  · next hread =>
    rw [h] at hread
    obtain ⟨rfl, rfl⟩ := Prod.mk.inj (Except.ok.inj hread)
    rfl

/-- A byte is read back from the way it is written. -/
theorem scanText_escapeByte (byte : UInt8) (rest done : Bytes) :
    scanText (escapeByte byte ++ rest) done = scanText rest (byte :: done) := by
  unfold escapeByte
  split
  · next hself =>
    have hread : readEscape (byte :: rest) = .ok ([byte], rest) := by
      rw [readEscape, escaped?, if_pos (hself.imp_right .inl)]
    exact scanText_escape hread done
  · next hplain =>
    obtain ⟨hquote, hslash⟩ := not_or.mp hplain
    split
    · next hcontrol =>
      split
      · next letter hletter =>
        have hread : readEscape (letter :: rest) = .ok ([byte], rest) := by
          rw [readEscape, escaped?_of_shortEscape? hletter]
        exact scanText_escape hread done
      · exact scanText_escape (readEscape_control hcontrol rest) done
    · next hprinted =>
      rw [List.singleton_append, scanText, if_neg hquote, if_neg hslash, if_neg hprinted]

/-! ### Texts -/

theorem scanText_escapes (bytes rest done : Bytes) :
    scanText (bytes.flatMap escapeByte ++ 0x22 :: rest) done =
      .ok (done.reverse ++ bytes, rest) := by
  induction bytes generalizing done with
  | nil => rw [List.flatMap_nil, List.nil_append, scanText, if_pos rfl, List.append_nil]
  | cons byte more ih =>
    rw [List.flatMap_cons, List.append_assoc, scanText_escapeByte, ih]
    simp

/-- What is between the quotes is the text. -/
theorem readText_quoted (s : String) (rest : Bytes) :
    readText ((ofText s).flatMap escapeByte ++ 0x22 :: rest) = .ok (s, rest) := by
  rw [readText, scanText_escapes, List.reverse_nil, List.nil_append]
  simp only [Bytes.toText?_ofText]

theorem quoted_append (s : String) (rest : Bytes) :
    quoted s ++ rest = 0x22 :: ((ofText s).flatMap escapeByte ++ 0x22 :: rest) := by
  simp [quoted]

end ParameterLog.Json
