/-
Module: ParameterLog.Proofs.NumeralReading
Purpose: reading the texts of numbers.
Main exports: Json.Stops, Json.IsNumeral, Json.takes_number, Json.negative_of_readNumber,
  Number.compact_eq, Number.echo, Json.readSigned_compact, Number.negative_of_echo
-/
import ParameterLog.Json.Printer
import ParameterLog.Json.Reader

/-!
The text of a number is a sign or none, digits, perhaps a point and digits, and perhaps an exponent
(`IsNumeral`). A reader takes all of it, and stops where nothing of the kind goes on: in front of a
comma or a closing bracket, or at the end (`Stops`). What it makes of the text does not depend on
what stands behind it (`takes_number`), so the text stands for one number (`Number.echo`),
which is another one than was written if rounding came between, but has the same sign
(`negative_of_readNumber`).
-/

namespace ParameterLog.Json

open Bytes (ofText)

/-- What stands behind a value: nothing, or a comma or a closing bracket. -/
def Stops (rest : Bytes) : Prop := ∀ byte ∈ rest.head?, byte = 0x2c ∨ byte = 0x5d ∨ byte = 0x7d

theorem stops_nil : Stops [] := by
  intro byte hbyte
  contradiction

theorem stops_comma (rest : Bytes) : Stops (0x2c :: rest) := by
  intro byte hbyte
  exact .inl (Option.some.inj hbyte).symm

theorem stops_bracket (rest : Bytes) : Stops (0x5d :: rest) := by
  intro byte hbyte
  exact .inr (.inl (Option.some.inj hbyte).symm)

theorem stops_brace (rest : Bytes) : Stops (0x7d :: rest) := by
  intro byte hbyte
  exact .inr (.inr (Option.some.inj hbyte).symm)

/-- A run of digits, of at least one. -/
structure IsRun (digits : Bytes) : Prop where
  ne_nil : digits ≠ []
  digit : ∀ byte ∈ digits, (digit? byte).isSome = true

/-- No digit follows. -/
def NoDigit (rest : Bytes) : Prop := ∀ byte ∈ rest.head?, digit? byte = none

theorem Stops.noDigit {rest : Bytes} (h : Stops rest) : NoDigit rest := by
  intro byte hbyte
  obtain rfl | rfl | rfl := h byte hbyte
  · rfl
  · rfl
  · rfl

/-! ### Runs of digits -/

theorem digitsValue_append {digits rest : Bytes} (h : ∀ byte ∈ digits, (digit? byte).isSome = true)
    (hrest : NoDigit rest) (value : Nat) :
    digitsValue value (digits ++ rest) = ((digitsValue value digits).1, rest) := by
  induction digits generalizing value with
  | nil =>
    cases rest with
    | nil => rfl
    | cons byte more => simp [digitsValue, hrest byte rfl]
  | cons byte more ih =>
    obtain ⟨d, hd⟩ := Option.isSome_iff_exists.mp (h byte List.mem_cons_self)
    simp only [List.cons_append, digitsValue, hd]
    exact ih (fun other hother => h other (List.mem_cons_of_mem _ hother)) _

theorem passDigits_append {digits rest : Bytes} (h : ∀ byte ∈ digits, (digit? byte).isSome = true)
    (hrest : NoDigit rest) (count : Nat) :
    passDigits count (digits ++ rest) = ((passDigits count digits).1, rest) := by
  induction digits generalizing count with
  | nil =>
    cases rest with
    | nil => rfl
    | cons byte more => simp [passDigits, hrest byte rfl]
  | cons byte more ih =>
    obtain ⟨d, hd⟩ := Option.isSome_iff_exists.mp (h byte List.mem_cons_self)
    simp only [List.cons_append, passDigits, hd]
    exact ih (fun other hother => h other (List.mem_cons_of_mem _ hother)) _

theorem collectDigits_append {digits rest : Bytes}
    (h : ∀ byte ∈ digits, (digit? byte).isSome = true) (hrest : NoDigit rest)
    (significand count : Nat) :
    collectDigits significand count (digits ++ rest) =
      { collectDigits significand count digits with
        rest := (collectDigits significand count digits).rest ++ rest } := by
  induction digits generalizing significand count with
  | nil =>
    cases rest with
    | nil => rfl
    | cons byte more => simp [collectDigits, hrest byte rfl]
  | cons byte more ih =>
    obtain ⟨d, hd⟩ := Option.isSome_iff_exists.mp (h byte List.mem_cons_self)
    simp only [List.cons_append, collectDigits, hd]
    split
    · exact ih (fun other hother => h other (List.mem_cons_of_mem _ hother)) _ _
    · rfl

/-- What is left of a run of digits are digits, and none are if all fitted. -/
theorem rest_collectDigits {digits : Bytes} (h : ∀ byte ∈ digits, (digit? byte).isSome = true)
    (significand count : Nat) :
    (∀ byte ∈ (collectDigits significand count digits).rest, (digit? byte).isSome = true) ∧
      ((collectDigits significand count digits).overflow = false →
        (collectDigits significand count digits).rest = []) := by
  induction digits generalizing significand count with
  | nil => exact ⟨h, fun _ => rfl⟩
  | cons byte more ih =>
    obtain ⟨d, hd⟩ := Option.isSome_iff_exists.mp (h byte List.mem_cons_self)
    simp only [collectDigits, hd]
    split
    · exact ih (fun other hother => h other (List.mem_cons_of_mem _ hother)) _ _
    · refine ⟨h, fun hfalse => ?_⟩
      contradiction

theorem le_count_collectDigits (significand count : Nat) (digits : Bytes) :
    count ≤ (collectDigits significand count digits).count := by
  fun_induction collectDigits significand count digits with
  | case1 => exact Nat.le_refl _
  | case2 => exact Nat.le_refl _
  | case3 significand count byte rest d hd hfits ih => exact Nat.le_of_succ_le ih
  | case4 => exact Nat.le_refl _

/-- Of digits that all fit, there are some. -/
theorem count_collectDigits {digits : Bytes} (h : IsRun digits) {significand : Nat}
    (hfits : (collectDigits significand 0 digits).overflow = false) :
    (collectDigits significand 0 digits).count ≠ 0 := by
  obtain ⟨first, more, rfl⟩ := List.exists_cons_of_ne_nil h.ne_nil
  obtain ⟨d, hd⟩ := Option.isSome_iff_exists.mp (h.digit first List.mem_cons_self)
  simp only [collectDigits, hd] at hfits ⊢
  split
  · exact Nat.ne_of_gt (le_count_collectDigits _ _ _)
  · next hover =>
    rw [if_neg hover] at hfits
    contradiction

/-! ### Numerals -/

/-- Whatever stands behind it, a reader takes a text and nothing else, and makes the same of it. -/
def Takes {α : Type} (read : Bytes → Except ReadError (α × Bytes)) (text : Bytes) : Prop :=
  ∃ result : Except ReadError α, ∀ rest, Stops rest → read (text ++ rest) = result.map (·, rest)

/-- An exponent behind a number, or none. -/
inductive IsScale : Bytes → Prop where
  | none : IsScale []
  | exponent {sign : UInt8} {digits : Bytes} (hsign : sign = 0x2b ∨ sign = 0x2d)
      (hdigits : IsRun digits) : IsScale (0x65 :: sign :: digits)

/-- A point and digits behind a number, or neither. -/
inductive IsFraction : Bytes → Prop where
  | none : IsFraction []
  | point {digits : Bytes} (hdigits : IsRun digits) : IsFraction (0x2e :: digits)

/-- A number without its sign. -/
inductive IsNumeral : Bytes → Prop where
  | mk {whole fraction scale : Bytes} (hwhole : IsRun whole) (hfraction : IsFraction fraction)
      (hscale : IsScale scale) : IsNumeral (whole ++ (fraction ++ scale))

theorem IsScale.noDigit {scale rest : Bytes} (h : IsScale scale) (hrest : Stops rest) :
    NoDigit (scale ++ rest) := by
  cases h with
  | none => exact hrest.noDigit
  | exponent hsign hdigits =>
    intro byte hbyte
    obtain rfl := Option.some.inj hbyte
    rfl

theorem IsFraction.noDigit {fraction scale rest : Bytes} (h : IsFraction fraction)
    (hscale : IsScale scale) (hrest : Stops rest) : NoDigit (fraction ++ scale ++ rest) := by
  cases h with
  | none => exact hscale.noDigit hrest
  | point hdigits =>
    intro byte hbyte
    obtain rfl := Option.some.inj hbyte
    rfl

theorem takes_exponent (negative : Bool) (significand : Nat) (start : Int) {sign : UInt8}
    {digits : Bytes} (hsign : sign = 0x2b ∨ sign = 0x2d) (hdigits : IsRun digits) :
    Takes (readExponent negative significand start) (sign :: digits) := by
  obtain ⟨first, more, rfl⟩ := List.exists_cons_of_ne_nil hdigits.ne_nil
  obtain ⟨d, hd⟩ := Option.isSome_iff_exists.mp (hdigits.digit first List.mem_cons_self)
  have hvalue {rest : Bytes} (hrest : Stops rest) :=
    digitsValue_append hdigits.digit hrest.noDigit 0
  simp only [List.cons_append] at hvalue
  obtain rfl | rfl := hsign
  · refine ⟨scaleByPower negative significand
      (start + ((digitsValue 0 (first :: more)).1 : Nat)), fun rest hrest => ?_⟩
    simp only [List.cons_append, readExponent, hd, hvalue hrest, if_true]
    cases scaleByPower negative significand _ <;> rfl
  · refine ⟨scaleByPower negative significand
      (start - ((digitsValue 0 (first :: more)).1 : Nat)), fun rest hrest => ?_⟩
    simp only [List.cons_append, readExponent, hd, hvalue hrest, Bool.false_eq_true, if_false]
    cases scaleByPower negative significand _ <;> rfl

/-- What stops a value starts no exponent. -/
theorem Stops.ne_exponent {byte : UInt8} {rest : Bytes} (h : Stops (byte :: rest)) :
    ¬ (byte = 0x65 ∨ byte = 0x45) := by
  obtain rfl | rfl | rfl := h byte rfl
  · decide
  · decide
  · decide

theorem takes_scale (negative : Bool) (significand : Nat) (exponent : Int) {scale : Bytes}
    (h : IsScale scale) : Takes (readScale negative significand exponent) scale := by
  cases h with
  | none =>
    refine ⟨scaleByPower negative significand exponent, fun rest hrest => ?_⟩
    cases rest with
    | nil => rfl
    | cons byte more => rw [List.nil_append, readScale, if_neg hrest.ne_exponent]
  | exponent hsign hdigits =>
    obtain ⟨result, hresult⟩ := takes_exponent negative significand exponent hsign hdigits
    refine ⟨result, fun rest hrest => ?_⟩
    rw [List.cons_append, readScale, if_pos (.inl rfl), hresult rest hrest]

/-- A fraction is read up to its last digit. -/
theorem readFraction_append (negative : Bool) (significand : Nat) (exponent : Int)
    {digits rest : Bytes} (hdigits : IsRun digits) (hrest : NoDigit rest) :
    readFraction negative significand exponent (digits ++ rest) =
      readScale negative (collectDigits significand 0 digits).significand
        (exponent - (collectDigits significand 0 digits).count) rest := by
  obtain ⟨hdigit, hall⟩ := rest_collectDigits hdigits.digit significand 0
  have hcollect := collectDigits_append hdigits.digit hrest significand 0
  by_cases hoverflow : (collectDigits significand 0 digits).overflow = true
  · simp only [readFraction, hcollect, hoverflow, if_true, passDigits_append hdigit hrest]
  · have hfits := Bool.eq_false_iff.mpr hoverflow
    have hcount : (collectDigits significand 0 digits).count ≠ 0 :=
      count_collectDigits hdigits hfits
    simp only [readFraction, hcollect, hfits, Bool.false_eq_true, if_false, hcount, hall hfits,
      List.nil_append]

theorem takes_fraction (negative : Bool) (significand : Nat) (exponent : Int)
    {digits scale : Bytes} (hdigits : IsRun digits) (hscale : IsScale scale) :
    Takes (readFraction negative significand exponent) (digits ++ scale) := by
  obtain ⟨result, hresult⟩ := takes_scale negative
    (collectDigits significand 0 digits).significand
    (exponent - (collectDigits significand 0 digits).count) hscale
  refine ⟨result, fun rest hrest => ?_⟩
  rw [List.append_assoc, readFraction_append _ _ _ hdigits (hscale.noDigit hrest),
    hresult rest hrest]

theorem Takes.map {α β : Type} {read : Bytes → Except ReadError (α × Bytes)} {text : Bytes}
    (h : Takes read text) (f : α → β) :
    Takes (fun input => (read input).map fun (a, rest) => (f a, rest)) text := by
  obtain ⟨result, hresult⟩ := h
  refine ⟨result.map f, fun rest hrest => ?_⟩
  simp only [hresult rest hrest]
  cases result <;> rfl

/-- Where a value stops, a number has ended with its integer digits. -/
theorem readTail_of_stops (negative : Bool) (significand : Nat) (exponent : Int) (whole : Bool)
    {rest : Bytes} (h : Stops rest) :
    readTail negative significand exponent whole rest =
      (if whole then wholeNumber negative significand
      else (scaleByPower negative significand exponent).map .double).map (·, rest) := by
  have hscale : readScale negative significand exponent rest =
      (scaleByPower negative significand exponent).map (·, rest) := by
    cases rest with
    | nil => rfl
    | cons byte more => rw [readScale, if_neg h.ne_exponent]
  cases rest with
  | nil =>
    cases whole with
    | true => rfl
    | false =>
      simp only [readTail, hscale, Bool.false_eq_true, if_false]
      cases scaleByPower negative significand exponent <;> rfl
  | cons byte more =>
    -- The point is the first thing that is looked for.
    have hpoint : byte ≠ 0x2e := by
      obtain rfl | rfl | rfl := h byte rfl <;> decide
    have hexponent := h.ne_exponent
    cases whole with
    | true => simp [readTail, hexponent]
    | false =>
      simp only [readTail, hscale, Bool.not_false, or_true, if_true]
      cases scaleByPower negative significand exponent <;> rfl

theorem takes_tail (negative : Bool) (significand : Nat) (exponent : Int) (whole : Bool)
    {fraction scale : Bytes} (hfraction : IsFraction fraction) (hscale : IsScale scale) :
    Takes (readTail negative significand exponent whole) (fraction ++ scale) := by
  cases hfraction with
  | point hdigits =>
    exact (takes_fraction negative significand exponent hdigits hscale).map Number.double
  | none =>
    cases hscale with
    | exponent hsign hdigits =>
      exact (takes_scale negative significand exponent (.exponent hsign hdigits)).map Number.double
    | none => exact ⟨_, fun rest hrest => readTail_of_stops _ _ _ _ hrest⟩

theorem readNumber_of_zero (negative : Bool) {first : UInt8} {rest : Bytes}
    (hfirst : digit? first = some 0) (hrest : NoDigit rest) :
    readNumber negative (first :: rest) = readTail negative 0 0 true rest := by
  cases rest with
  | nil => simp only [readNumber, hfirst]
  | cons second more =>
    have hsecond := hrest second rfl
    simp only [readNumber, hfirst, hsecond, Option.isSome_none, Bool.false_eq_true, if_false]

/-- Integer digits are read to the last one. -/
theorem readNumber_of_run (negative : Bool) {first : UInt8} {more rest : Bytes} {d : Nat}
    (hwhole : IsRun (first :: more)) (hfirst : digit? first = some (d + 1)) (hrest : NoDigit rest) :
    readNumber negative (first :: more ++ rest) =
      if (collectDigits 0 0 (first :: more)).overflow then
        readTail negative (collectDigits 0 0 (first :: more)).significand
          (passDigits 0 (collectDigits 0 0 (first :: more)).rest).1 false rest
      else readTail negative (collectDigits 0 0 (first :: more)).significand 0 true rest := by
  obtain ⟨hdigit, hall⟩ := rest_collectDigits hwhole.digit 0 0
  have hcollect := collectDigits_append hwhole.digit hrest 0 0
  have hpass := passDigits_append hdigit hrest 0
  rw [List.cons_append] at hcollect ⊢
  simp only [readNumber, hfirst, hcollect, hpass]
  split
  · rfl
  · next hover => rw [hall (Bool.eq_false_iff.mpr hover), List.nil_append]

/-- A number is read to its end, whatever stands behind it. -/
theorem takes_number (negative : Bool) {numeral : Bytes} (h : IsNumeral numeral) :
    Takes (readNumber negative) numeral := by
  obtain @⟨whole, fraction, scale, hwhole, hfraction, hscale⟩ := h
  have hnone {rest : Bytes} (hrest : Stops rest) := hfraction.noDigit hscale hrest
  obtain ⟨first, more, rfl⟩ := List.exists_cons_of_ne_nil hwhole.ne_nil
  obtain ⟨d, hd⟩ := Option.isSome_iff_exists.mp (hwhole.digit first List.mem_cons_self)
  cases d with
  | zero =>
    cases more with
    | nil =>
      obtain ⟨result, hresult⟩ := takes_tail negative 0 0 true hfraction hscale
      refine ⟨result, fun rest hrest => ?_⟩
      exact (readNumber_of_zero negative hd (hnone hrest)).trans (hresult rest hrest)
    | cons second more =>
      -- A zero in front of other digits is refused.
      refine ⟨.error .malformed, fun rest hrest => ?_⟩
      have hdigit := hwhole.digit second (by simp)
      simp only [List.cons_append, readNumber, hd, hdigit, if_true]
      rfl
  | succ d =>
    by_cases hover : (collectDigits 0 0 (first :: more)).overflow = true
    · obtain ⟨result, hresult⟩ := takes_tail negative
        (collectDigits 0 0 (first :: more)).significand
        (passDigits 0 (collectDigits 0 0 (first :: more)).rest).1 false hfraction hscale
      refine ⟨result, fun rest hrest => ?_⟩
      rw [List.append_assoc, readNumber_of_run negative hwhole hd (hnone hrest), if_pos hover]
      exact hresult rest hrest
    · obtain ⟨result, hresult⟩ := takes_tail negative
        (collectDigits 0 0 (first :: more)).significand 0 true hfraction hscale
      refine ⟨result, fun rest hrest => ?_⟩
      rw [List.append_assoc, readNumber_of_run negative hwhole hd (hnone hrest), if_neg hover]
      exact hresult rest hrest

/-! ### Signs -/

theorem negative_of_scaleByPower {negative : Bool} {significand : Nat} {exponent : Int} {d : Double}
    (h : scaleByPower negative significand exponent = .ok d) : d.negative = negative := by
  unfold scaleByPower at h
  extract_lets unscaled magnitude at h
  cases hmagnitude : magnitude with
  | none =>
    rw [hmagnitude] at h
    contradiction
  | some d =>
    rw [hmagnitude] at h
    exact Except.ok.inj h ▸ rfl

theorem negative_of_map {negative : Bool} {significand : Nat} {exponent : Int} {input rest : Bytes}
    {d : Double} (h : (scaleByPower negative significand exponent).map (·, input) = .ok (d, rest)) :
    d.negative = negative := by
  cases hscaled : scaleByPower negative significand exponent with
  | error e =>
    rw [hscaled] at h
    contradiction
  | ok scaled =>
    rw [hscaled] at h
    obtain ⟨rfl, -⟩ := Prod.mk.inj (Except.ok.inj h)
    exact negative_of_scaleByPower hscaled

theorem negative_of_readExponent {negative : Bool} {significand : Nat} {start : Int}
    {input rest : Bytes} {d : Double}
    (h : readExponent negative significand start input = .ok (d, rest)) :
    d.negative = negative := by
  unfold readExponent at h
  dsimp only at h
  split at h
  · contradiction
  · split at h
    · contradiction
    · split at h
      · next scaled hscaled =>
        obtain ⟨rfl, -⟩ := Prod.mk.inj (Except.ok.inj h)
        exact negative_of_scaleByPower hscaled
      · contradiction

theorem negative_of_readScale {negative : Bool} {significand : Nat} {exponent : Int}
    {input rest : Bytes} {d : Double}
    (h : readScale negative significand exponent input = .ok (d, rest)) :
    d.negative = negative := by
  cases input with
  | nil => exact negative_of_map h
  | cons byte more =>
    rw [readScale] at h
    split at h
    · exact negative_of_readExponent h
    · exact negative_of_map h

theorem negative_of_readFraction {negative : Bool} {significand : Nat} {exponent : Int}
    {input rest : Bytes} {d : Double}
    (h : readFraction negative significand exponent input = .ok (d, rest)) :
    d.negative = negative := by
  unfold readFraction at h
  dsimp only at h
  split at h
  · exact negative_of_readScale h
  · split at h
    · split at h <;> contradiction
    · exact negative_of_readScale h

/-- The reading of a double has the sign of its last step. -/
theorem negative_of_map_double {negative : Bool} {reading : Except ReadError (Double × Bytes)}
    {rest : Bytes} {d : Double}
    (h : (reading.map fun (d, rest) => (Number.double d, rest)) = .ok (.double d, rest))
    (hreading : ∀ {d rest}, reading = .ok (d, rest) → d.negative = negative) :
    d.negative = negative := by
  cases reading with
  | error e => contradiction
  | ok result =>
    obtain ⟨hd, -⟩ := Prod.mk.inj (Except.ok.inj h)
    exact Number.double.inj hd ▸ hreading rfl

theorem negative_of_wholeNumber {negative : Bool} {significand : Nat} {input rest : Bytes}
    {d : Double} (h : (wholeNumber negative significand).map (·, input) = .ok (.double d, rest)) :
    d.negative = negative := by
  unfold wholeNumber at h
  split at h
  · simp [Except.map] at h
  · next hsign =>
    split at h
    · simp [Except.map] at h
    · have htrue : negative = true := by simpa using hsign
      cases hscaled : scaleByPower true significand 0 with
      | error e =>
        rw [hscaled] at h
        contradiction
      | ok scaled =>
        rw [hscaled] at h
        obtain ⟨hd, -⟩ := Prod.mk.inj (Except.ok.inj h)
        rw [htrue, ← Number.double.inj hd, negative_of_scaleByPower hscaled]

theorem negative_of_readTail {negative : Bool} {significand : Nat} {exponent : Int} {whole : Bool}
    {input rest : Bytes} {d : Double}
    (h : readTail negative significand exponent whole input = .ok (.double d, rest)) :
    d.negative = negative := by
  unfold readTail at h
  dsimp only at h
  split at h
  · exact negative_of_map_double h negative_of_readFraction
  · split at h
    · exact negative_of_map_double h negative_of_readScale
    · exact negative_of_wholeNumber h
  · split at h
    · exact negative_of_wholeNumber h
    · exact negative_of_map_double h negative_of_readScale

/-- A double has the sign that stood in front of its digits. -/
theorem negative_of_readNumber {negative : Bool} {input rest : Bytes} {d : Double}
    (h : readNumber negative input = .ok (.double d, rest)) : d.negative = negative := by
  unfold readNumber at h
  split at h
  · contradiction
  · split at h
    · contradiction
    · split at h
      · split at h
        · contradiction
        · exact negative_of_readTail h
      · exact negative_of_readTail h
    · dsimp only at h
      split at h
      · exact negative_of_readTail h
      · exact negative_of_readTail h

/-! ### The texts of numbers -/

/-- The bytes of characters. -/
def encoded (chars : List Char) : Bytes := chars.flatMap String.utf8EncodeChar

theorem encoded_append (xs ys : List Char) : encoded (xs ++ ys) = encoded xs ++ encoded ys :=
  List.flatMap_append

theorem ofText_ofList (chars : List Char) : ofText (String.ofList chars) = encoded chars := by
  simp [ofText, encoded, List.utf8Encode]

theorem ofText_append (a b : String) : ofText (a ++ b) = ofText a ++ ofText b := by
  simp [ofText]

/-- Characters that are digits, at least one. -/
structure AreDigits (chars : List Char) : Prop where
  ne_nil : chars ≠ []
  digit : ∀ c ∈ chars, c.isDigit = true

theorem areDigits_toDigits (n : Nat) : AreDigits (Nat.toDigits 10 n) := by
  constructor
  · exact Nat.toDigits_ne_nil
  · intro c hc
    exact Nat.isDigit_of_mem_toDigits (by decide) (by decide) hc

/-- A digit is written as one byte, which has the value of the digit. -/
theorem digit?_of_isDigit {c : Char} (h : c.isDigit = true) :
    ∃ byte, String.utf8EncodeChar c = [byte] ∧ digit? byte = some (c.toNat - '0'.toNat) := by
  have hall : ∀ n, n ≤ 57 → 48 ≤ n → String.utf8EncodeChar (Char.ofNat n) = [UInt8.ofNat n] ∧
      digit? (UInt8.ofNat n) = some (n - '0'.toNat) := by decide
  obtain ⟨hlow, hhigh⟩ := Char.isDigit_iff_toNat.mp h
  have hown := hall c.toNat hhigh hlow
  rw [Char.ofNat_toNat] at hown
  exact ⟨_, hown⟩

theorem AreDigits.isRun {chars : List Char} (h : AreDigits chars) : IsRun (encoded chars) := by
  constructor
  · obtain ⟨c, rest, rfl⟩ := List.exists_cons_of_ne_nil h.ne_nil
    simp [encoded]
  · intro byte hbyte
    obtain ⟨c, hc, hmem⟩ := List.mem_flatMap.mp hbyte
    obtain ⟨own, hown, hdigit⟩ := digit?_of_isDigit (h.digit c hc)
    rw [hown, List.mem_singleton] at hmem
    rw [hmem, hdigit]
    rfl

namespace AreDigits

variable {xs ys : List Char}

theorem append_right (h : AreDigits xs) (hys : ∀ c ∈ ys, c.isDigit = true) :
    AreDigits (xs ++ ys) := by
  constructor
  · exact List.append_ne_nil_of_left_ne_nil h.ne_nil ys
  · intro c hc
    exact (List.mem_append.mp hc).elim (h.digit c) (hys c)

theorem append_left (h : AreDigits ys) (hxs : ∀ c ∈ xs, c.isDigit = true) :
    AreDigits (xs ++ ys) := by
  constructor
  · exact List.append_ne_nil_of_right_ne_nil xs h.ne_nil
  · intro c hc
    exact (List.mem_append.mp hc).elim (hxs c) (h.digit c)

theorem take (h : AreDigits xs) {count : Nat} (hcount : 0 < count) : AreDigits (xs.take count) := by
  constructor
  · rw [ne_eq, List.take_eq_nil_iff]
    exact not_or.mpr ⟨Nat.ne_of_gt hcount, h.ne_nil⟩
  · exact fun c hc => h.digit c (List.mem_of_mem_take hc)

theorem drop (h : AreDigits xs) {count : Nat} (hcount : count < xs.length) :
    AreDigits (xs.drop count) := by
  constructor
  · rw [ne_eq, List.drop_eq_nil_iff]
    exact Nat.not_le.mpr hcount
  · exact fun c hc => h.digit c (List.mem_of_mem_drop hc)

end AreDigits

theorem digit_of_mem_zeros {count : Nat} : ∀ c ∈ List.replicate count '0', c.isDigit = true := by
  intro c hc
  rw [List.eq_of_mem_replicate hc]
  rfl

theorem isNumeral_point {whole fraction : List Char} (hwhole : AreDigits whole)
    (hfraction : AreDigits fraction) : IsNumeral (encoded (whole ++ '.' :: fraction)) := by
  have heq : encoded (whole ++ '.' :: fraction) =
      encoded whole ++ (0x2e :: encoded fraction ++ []) := by
    rw [encoded_append, List.append_nil]
    rfl
  rw [heq]
  exact ⟨hwhole.isRun, .point hfraction.isRun, .none⟩

theorem isNumeral_scale {whole fraction exponent : List Char} {sign : Char}
    (hwhole : AreDigits whole) (hfraction : fraction = [] ∨ AreDigits fraction)
    (hsign : sign = '+' ∨ sign = '-') (hexponent : AreDigits exponent) :
    IsNumeral (encoded (whole ++ (if fraction = [] then [] else '.' :: fraction) ++ ['e', sign] ++
      exponent)) := by
  have hscale : IsScale (encoded (['e', sign] ++ exponent)) := by
    obtain rfl | rfl := hsign
    · exact .exponent (.inl rfl) hexponent.isRun
    · exact .exponent (.inr rfl) hexponent.isRun
  rw [List.append_assoc, List.append_assoc, encoded_append, encoded_append]
  refine ⟨hwhole.isRun, ?_, hscale⟩
  split
  · exact .none
  · next hne => exact .point (hfraction.resolve_left hne).isRun

theorem isNumeral_decimalText (decimal : Decimal) :
    IsNumeral (ofText (Double.decimalText decimal)) := by
  have hdigits := areDigits_toDigits decimal.digits
  have hlength := List.length_pos_iff.mpr hdigits.ne_nil
  rw [Double.decimalText, ofText_ofList]
  dsimp only
  split
  · split
    · -- A zero, the point, zeros and the digits.
      have hzero : AreDigits ['0'] := ⟨by simp, by simp⟩
      exact isNumeral_point hzero (hdigits.append_left digit_of_mem_zeros)
    · split
      · -- The digits, zeros, the point and a zero.
        have hzero : AreDigits ['0'] := ⟨by simp, by simp⟩
        exact isNumeral_point (hdigits.append_right digit_of_mem_zeros) hzero
      · next hlong =>
        -- The point stands between the digits.
        rw [List.append_assoc]
        exact isNumeral_point (hdigits.take (Nat.succ_pos _)) (hdigits.drop (Nat.not_le.mp hlong))
  · -- One digit before the point, if there are more, and an exponent.
    have hfraction : (Nat.toDigits 10 decimal.digits).drop 1 = [] ∨
        AreDigits ((Nat.toDigits 10 decimal.digits).drop 1) := by
      by_cases hone : (Nat.toDigits 10 decimal.digits).length = 1
      · exact .inl (List.drop_eq_nil_of_le (Nat.le_of_eq hone))
      · exact .inr (hdigits.drop (by omega))
    have hnone : (Nat.toDigits 10 decimal.digits).length = 1 ↔
        (Nat.toDigits 10 decimal.digits).drop 1 = [] := by
      rw [List.drop_eq_nil_iff]
      omega
    simp only [hnone]
    apply isNumeral_scale (hdigits.take Nat.one_pos) hfraction _ (areDigits_toDigits _)
    split
    · exact .inr rfl
    · exact .inl rfl

/-- The sign in front of a number. -/
def signBytes (negative : Bool) : Bytes := if negative then [0x2d] else []

theorem Double.text_eq (d : Double) :
    ∃ numeral, IsNumeral numeral ∧ ofText d.text = signBytes d.negative ++ numeral := by
  have hsign : ofText (if d.negative then "-" else "") = signBytes d.negative := by
    cases d.negative with
    | true => rfl
    | false => rfl
  rw [Double.text]
  split
  · have hzero : AreDigits ['0'] := ⟨by simp, by simp⟩
    refine ⟨encoded ['0', '.', '0'], isNumeral_point hzero hzero, ?_⟩
    rw [ofText_append, hsign]
    rfl
  · refine ⟨_, isNumeral_decimalText d.shortest, ?_⟩
    rw [ofText_append, hsign]

theorem isNumeral_nat (n : Nat) : IsNumeral (ofText (toString n)) := by
  rw [Nat.toString_eq_ofList_toDigits, ofText_ofList, ← List.append_nil (encoded _),
    ← List.append_nil []]
  exact ⟨(areDigits_toDigits n).isRun, .none, .none⟩

/-- The text of a number is a numeral behind a sign, which is that of the number. -/
theorem Number.compact_eq (n : Number) :
    ∃ negative numeral, IsNumeral numeral ∧ n.compact = signBytes negative ++ numeral ∧
      ∀ d, n = .double d → negative = d.negative := by
  cases n with
  | double d =>
    obtain ⟨numeral, hnumeral, heq⟩ := d.text_eq
    refine ⟨d.negative, numeral, hnumeral, heq, fun other hother => ?_⟩
    rw [Number.double.inj hother]
  | integer n =>
    cases n with
    | ofNat n =>
      refine ⟨false, _, isNumeral_nat n, rfl, fun d hd => ?_⟩
      contradiction
    | negSucc n =>
      refine ⟨true, _, isNumeral_nat (n + 1), ?_, fun d hd => ?_⟩
      · exact ofText_append "-" (toString (n + 1))
      · contradiction

/-! ### Numbers read back -/

/-- Reads a number with its sign. -/
def readSigned (input : Bytes) : Except ReadError (Number × Bytes) :=
  match input with
  | [] => .error .unfinished
  | byte :: rest => if byte = 0x2d then readNumber true rest else readNumber false (byte :: rest)

/-- What a number is read back as. -/
def Number.echo (n : Number) : Except ReadError Number := (readSigned n.compact).map (·.1)

theorem IsNumeral.exists_cons {numeral : Bytes} (h : IsNumeral numeral) :
    ∃ first rest, numeral = first :: rest ∧ (digit? first).isSome = true := by
  obtain @⟨whole, fraction, scale, hwhole, -, -⟩ := h
  obtain ⟨first, more, rfl⟩ := List.exists_cons_of_ne_nil hwhole.ne_nil
  exact ⟨first, _, rfl, hwhole.digit first List.mem_cons_self⟩

theorem ne_minus_of_digit {byte : UInt8} (h : (digit? byte).isSome = true) : byte ≠ 0x2d := by
  rintro rfl
  contradiction

theorem readSigned_signBytes (negative : Bool) {numeral : Bytes} (h : IsNumeral numeral)
    (rest : Bytes) :
    readSigned (signBytes negative ++ numeral ++ rest) = readNumber negative (numeral ++ rest) := by
  cases negative with
  | true => rfl
  | false =>
    obtain ⟨first, more, rfl, hfirst⟩ := h.exists_cons
    have hne := ne_minus_of_digit hfirst
    simp [signBytes, readSigned, hne]

/-- A number is read to the end of its text and comes out as its echo. -/
theorem readSigned_compact (n : Number) {rest : Bytes} (h : Stops rest) :
    readSigned (n.compact ++ rest) = n.echo.map (·, rest) := by
  obtain ⟨negative, numeral, hnumeral, heq, -⟩ := n.compact_eq
  obtain ⟨result, hresult⟩ := takes_number negative hnumeral
  have hecho : n.echo = result := by
    have halone := readSigned_signBytes negative hnumeral []
    rw [hresult [] stops_nil, List.append_nil] at halone
    rw [Number.echo, heq, halone]
    cases result <;> rfl
  rw [hecho, heq, readSigned_signBytes negative hnumeral, hresult rest h]

/-- The echo of a double has its sign, whatever its value. -/
theorem Number.negative_of_echo {d e : Double} (h : (Number.double d).echo = .ok (.double e)) :
    e.negative = d.negative := by
  obtain ⟨negative, numeral, hnumeral, heq, hsign⟩ := (Number.double d).compact_eq
  have halone := readSigned_signBytes negative hnumeral []
  rw [List.append_nil, List.append_nil] at halone
  rw [Number.echo, heq, halone] at h
  cases hread : readNumber negative numeral with
  | error e =>
    rw [hread] at h
    contradiction
  | ok result =>
    rw [hread] at h
    obtain ⟨found, rest⟩ := result
    obtain rfl : found = .double e := Except.ok.inj h
    rw [negative_of_readNumber hread, hsign d rfl]

end ParameterLog.Json
