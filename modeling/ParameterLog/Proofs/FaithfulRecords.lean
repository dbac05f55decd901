/-
Module: ParameterLog.Proofs.FaithfulRecords
Purpose: which parameters are read back from their stored form as they were.
Main exports: Json.readNumber_nat, Number.echo_integer, Value.echo_of_wellFormed,
  Parameters.WellFormed, Parameters.echo_of_wellFormed, Parameters.survives_iff_value_ne_null
-/
import ParameterLog.Proofs.Refinement

/-!
A whole number is written in decimal and read digit by digit. The digits of a number of 64 bits fit
the significand to the last one, so the number that is read is the one that was written
(`Number.echo_integer`). A value whose numbers are all of this kind and whose maps are in order is
therefore its own echo if it nests no deeper than is read (`Value.echo_of_wellFormed`).

Of parameters, one thing is not told apart in their stored form: `null` is written both for a value
that is `null` and for none. Parameters without doubles come back with everything else, so they
survive exactly if their value is not `null` (`Parameters.survives_iff_value_ne_null`). Inside a
value, `null` is as good as any other.
-/

namespace ParameterLog

namespace Json

/-! ### Whole numbers -/

theorem encoded_cons {c : Char} (h : c.isDigit = true) (rest : List Char) :
    ∃ byte, encoded (c :: rest) = byte :: encoded rest ∧
      digit? byte = some (c.toNat - '0'.toNat) := by
  obtain ⟨byte, hbyte, hdigit⟩ := digit?_of_isDigit h
  refine ⟨byte, ?_, hdigit⟩
  rw [encoded, List.flatMap_cons, hbyte]
  rfl

theorem le_ofDigitChars (chars : List Char) (value : Nat) :
    value ≤ Nat.ofDigitChars 10 chars value := by
  induction chars generalizing value with
  | nil => exact Nat.le_refl value
  | cons c rest ih =>
    rw [Nat.ofDigitChars_cons]
    exact Nat.le_trans (by omega) (ih _)

/-- Digits whose value fits are all collected. -/
theorem collectDigits_encoded {chars : List Char} (h : ∀ c ∈ chars, c.isDigit = true)
    {significand : Nat} (hfits : Nat.ofDigitChars 10 chars significand < significandBound)
    (count : Nat) :
    collectDigits significand count (encoded chars) =
      ⟨Nat.ofDigitChars 10 chars significand, count + chars.length, false, []⟩ := by
  induction chars generalizing significand count with
  | nil => rfl
  | cons c rest ih =>
    obtain ⟨hc, hrest⟩ := List.forall_mem_cons.mp h
    obtain ⟨byte, hbytes, hdigit⟩ := encoded_cons hc rest
    rw [Nat.ofDigitChars_cons, Nat.mul_comm 10] at hfits ⊢
    -- A significand only grows, so it fits after this digit if it does after the last one.
    have hnext := Nat.lt_of_le_of_lt (le_ofDigitChars rest _) hfits
    rw [hbytes, collectDigits]
    simp only [hdigit, if_pos hnext]
    rw [ih hrest hfits, List.length_cons, Nat.add_assoc, Nat.add_comm 1]

/-- The digits of a positive number do not start with a zero. -/
theorem toDigits_eq_cons {n : Nat} (h : 0 < n) :
    ∃ c rest, Nat.toDigits 10 n = c :: rest ∧ '0'.toNat < c.toNat := by
  induction n using Nat.strongRecOn with
  | ind n ih =>
    by_cases hsmall : n < 10
    · refine ⟨n.digitChar, [], Nat.toDigits_of_lt_base hsmall, ?_⟩
      have hall : ∀ d < 10, 0 < d → '0'.toNat < (Nat.digitChar d).toNat := by decide
      exact hall n hsmall h
    · have hlow : 0 < n / 10 := Nat.div_pos (Nat.not_lt.mp hsmall) (by decide)
      obtain ⟨c, rest, heq, hne⟩ := ih (n / 10) (Nat.div_lt_self h (by decide)) hlow
      refine ⟨c, rest ++ [(n % 10).digitChar], ?_, hne⟩
      rw [Nat.toDigits_of_base_le (by decide) (Nat.not_lt.mp hsmall), heq, List.cons_append]

theorem ofText_nat (n : Nat) : Bytes.ofText (toString n) = encoded (Nat.toDigits 10 n) := by
  rw [Nat.toString_eq_ofList_toDigits, ofText_ofList]

/-- The digits of a number of 64 bits are read as the number. -/
theorem readNumber_nat (negative : Bool) {n : Nat} (h : n < significandBound) {rest : Bytes}
    (hrest : Stops rest) :
    readNumber negative (Bytes.ofText (toString n) ++ rest) =
      (wholeNumber negative n).map (·, rest) := by
  have htail : readTail negative n 0 true rest = (wholeNumber negative n).map (·, rest) := by
    rw [readTail_of_stops negative n 0 true hrest, if_pos rfl]
  rw [ofText_nat]
  -- A zero in front is read by itself, and only zero is written with one.
  rcases Nat.eq_zero_or_pos n with rfl | hpos
  · have hzero : encoded (Nat.toDigits 10 0) = [0x30] := rfl
    rw [hzero]
    exact (readNumber_of_zero negative rfl hrest.noDigit).trans htail
  · obtain ⟨c, more, hdigits, hlead⟩ := toDigits_eq_cons hpos
    have hvalue : Nat.ofDigitChars 10 (c :: more) 0 = n := by
      rw [← hdigits, Nat.ofDigitChars_ten_toDigits]
    have hall : AreDigits (c :: more) := hdigits ▸ areDigits_toDigits n
    have hfits : Nat.ofDigitChars 10 (c :: more) 0 < significandBound := by rwa [hvalue]
    have hcollect := collectDigits_encoded hall.digit hfits 0
    obtain ⟨byte, hbytes, hdigit⟩ := encoded_cons (hall.digit c List.mem_cons_self) more
    obtain ⟨d, hd⟩ := Nat.exists_eq_add_of_lt hlead
    rw [hd, Nat.add_assoc, Nat.add_sub_cancel_left] at hdigit
    have hrun := hall.isRun
    rw [hbytes] at hcollect hrun
    rw [hdigits, hbytes, readNumber_of_run negative hrun hdigit hrest.noDigit, hcollect, hvalue]
    rw [if_neg Bool.false_ne_true, htail]

/-- A whole number in range is read back as it was written. -/
theorem Number.echo_integer {n : Int} (h : inRange n = true) :
    (integer n).echo = .ok (integer n) := by
  simp only [inRange, Bool.and_eq_true, decide_eq_true_eq] at h
  cases n with
  | ofNat n =>
    have hfits : n < significandBound := Nat.lt_succ_of_le (Int.ofNat_le.mp h.2)
    have hread := readSigned_signBytes false (isNumeral_nat n) []
    rw [readNumber_nat false hfits stops_nil, List.append_nil] at hread
    have htext : (integer (.ofNat n)).compact = signBytes false ++ Bytes.ofText (toString n) := rfl
    rw [echo, htext, hread]
    rfl
  | negSucc n =>
    have hhalf : 2 * (n + 1) ≤ significandBound := by
      simp only [significandBound]
      omega
    have hread := readSigned_signBytes true (isNumeral_nat (n + 1)) []
    rw [readNumber_nat true (by omega) stops_nil, List.append_nil] at hread
    have htext : (integer (.negSucc n)).compact =
        signBytes true ++ Bytes.ofText (toString (n + 1)) := ofText_append "-" (toString (n + 1))
    rw [echo, htext, hread, wholeNumber, if_neg (by decide), if_pos ⟨Nat.succ_pos n, hhalf⟩]
    rfl

/-! ### Values -/

namespace Value

theorem wellFormedItems_iff {items : List Value} :
    WellFormedItems items ↔ ∀ v ∈ items, v.WellFormed := by
  induction items with
  | nil => simp [WellFormedItems]
  | cons v rest ih => rw [WellFormedItems, ih, List.forall_mem_cons]

theorem wellFormedMembers_iff {members : Members} :
    WellFormedMembers members ↔ ∀ member ∈ members, member.2.WellFormed := by
  induction members with
  | nil => simp [WellFormedMembers]
  | cons member rest ih => rw [WellFormedMembers, ih, List.forall_mem_cons]

theorem depthItems_le_iff {items : List Value} {levels : Nat} :
    depthItems items ≤ levels ↔ ∀ v ∈ items, v.depth ≤ levels := by
  induction items with
  | nil => simp [depthItems]
  | cons v rest ih => rw [depthItems, Nat.max_le, ih, List.forall_mem_cons]

theorem depthMembers_le_iff {members : List (String × Value)} {levels : Nat} :
    depthMembers members ≤ levels ↔ ∀ member ∈ members, member.2.depth ≤ levels := by
  induction members with
  | nil => simp [depthMembers]
  | cons member rest ih => rw [depthMembers, Nat.max_le, ih, List.forall_mem_cons]

theorem echo_number {n : Number} (h : (number n).WellFormed) (levels : Nat) :
    (number n).echo levels = .ok (number n) := by
  cases n with
  | double d => contradiction
  | integer n =>
    rw [echo, Number.echo_integer h]
    rfl

/-- A well-formed value that does not nest too deep is read back as it was written. -/
theorem echo_of_wellFormed {levels : Nat} {v : Value} (h : v.WellFormed)
    (hdepth : v.depth ≤ levels) : v.echo levels = .ok v := by
  -- Reading counts levels down, so the induction is on these and not on the value.
  induction levels generalizing v with
  | zero =>
    cases v with
    | null | bool b | text s => rfl
    | number n => exact echo_number h 0
    | array items => contradiction
    | object members => contradiction
  | succ levels ih =>
    cases v with
    | null | bool b | text s => rfl
    | number n => exact echo_number h (levels + 1)
    | array items =>
      have hitems : items.mapM (echo levels) = .ok items := by
        rw [mapM_ok_iff]
        refine List.forall₂_same.mpr fun v hv => ih ?_ ?_
        · exact wellFormedItems_iff.mp h v hv
        · exact depthItems_le_iff.mp (Nat.le_of_succ_le_succ hdepth) v hv
      rw [echo, hitems]
      rfl
    | object members =>
      obtain ⟨hordered, hmembers⟩ := h
      have hread : (members.mapM fun member => (member.2.echo levels).map (member.1, ·)) =
          .ok members := by
        rw [mapM_ok_iff]
        refine List.forall₂_same.mpr fun member hmember => ?_
        rw [ih]
        · rfl
        · exact wellFormedMembers_iff.mp hmembers member hmember
        · exact depthMembers_le_iff.mp (Nat.le_of_succ_le_succ hdepth) member hmember
      rw [echo, hread]
      exact congrArg (fun map => Except.ok (object map)) (Members.ofList_of_ordered hordered)

end Value

theorem Members.echo_of_wellFormed {levels : Nat} {members : Members}
    (h : (Value.object members).WellFormed) (hdepth : (Value.object members).depth ≤ levels) :
    members.echo levels = .ok members := by
  have hobject := Value.echo_of_wellFormed h hdepth
  rw [Value.echo_object] at hobject
  obtain ⟨found, hfound, heq⟩ := map_eq_ok hobject
  rw [hfound, Value.object.inj heq]

end Json

/-! ### Parameters -/

namespace Parameters

open Json

/-- No map and no value holds a double, and the stored form nests no deeper than is read. -/
structure WellFormed (p : Parameters) : Prop where
  config : (Value.object p.action.config).WellFormed
  data : (Value.object p.group.data).WellFormed
  value : ∀ v ∈ p.value, v.WellFormed
  depth : p.document.depth ≤ deepest

variable {p : Parameters}

/-- The stored form of parameters is two levels around maps and one around the value. -/
theorem depth_document_le_iff {levels : Nat} :
    p.document.depth ≤ levels + 2 ↔
      (Value.object p.action.config).depth ≤ levels ∧ (Value.object p.group.data).depth ≤ levels ∧
        (Value.ofOption p.value).depth ≤ levels + 1 := by
  simp only [document, Action.document, ParameterGroup.document, Value.depth, Value.depthMembers]
  omega

/-- Well-formed parameters are read back as they were written, but for a value that is `null`. -/
theorem echo_of_wellFormed (h : p.WellFormed) :
    p.echo 125 = .ok (new p.id p.action p.group (p.value.bind Shape.present)) := by
  obtain ⟨hconfig, hdata, hnesting⟩ := depth_document_le_iff.mp h.depth
  have hvalue : (Value.ofOption p.value).WellFormed := by
    cases hv : p.value with
    | none => trivial
    | some v => exact h.value v hv
  have hpresent : Shape.present (Value.ofOption p.value) = p.value.bind Shape.present := by
    cases p.value <;> rfl
  rw [echo, Members.echo_of_wellFormed h.config hconfig, Members.echo_of_wellFormed h.data hdata,
    Value.echo_of_wellFormed hvalue hnesting, ← hpresent]
  rfl

/-- A value is nothing in what is read back just if it is nothing or `null`. -/
theorem map_bind_present_iff {α : Type} (f : Value → α) {value : Option Value} :
    (value.bind Shape.present).map f = value.map f ↔ value ≠ some .null := by
  cases value with
  | none => simp
  | some v => cases v <;> simp [Shape.present]

/-- Which parameters survive being stored. Parameters without doubles whose stored form nests no
deeper than is read are always read back, with everything but a value that is `null`, which comes
back as no value. So what is read back is what was written, and is the same as it, exactly if the
value is not `null`. -/
theorem survives_iff_value_ne_null (h : p.WellFormed) :
    ofBytes p.toBytes = .ok (new p.id p.action p.group (p.value.bind Shape.present)) ∧
      (ofBytes p.toBytes = .ok { p with store := none } ↔ p.value ≠ some .null) ∧
      (Store.Survives p ↔ p.value ≠ some .null) := by
  have hread :
      ofBytes p.toBytes = .ok (new p.id p.action p.group (p.value.bind Shape.present)) := by
    rw [ofBytes_toBytes, echo_of_wellFormed h]
  refine ⟨hread, ?_, ?_⟩
  · rw [hread, ← map_bind_present_iff fun v => v]
    simp [new]
  · rw [Store.Survives, hread, ← map_bind_present_iff Value.plain]
    simp [same_iff, plain, new]

/-- `Parameters.sample 1` with a value. -/
def valued (value : Value) : Parameters := { Parameters.sample 1 with value := some value }

/-- The parameters are well-formed if their value is and does not nest too deep. -/
theorem wellFormed_valued {value : Value} (h : value.WellFormed) (hdepth : value.depth ≤ 126) :
    (valued value).WellFormed := by
  have hempty : (Value.object []).depth ≤ 125 := by decide
  exact {
    config := ⟨.nil, trivial⟩
    data := ⟨.nil, trivial⟩
    value := fun v hv => Option.some.inj hv ▸ h
    depth := depth_document_le_iff.mpr ⟨hempty, hempty, hdepth⟩ }

/-- The least integer and `null` survive inside an array. -/
theorem survives_least_and_null :
    Store.Survives (valued (.array [.number (.integer (-9223372036854775808)), .null])) := by
  have hvalue : (Value.array [.number (.integer (-9223372036854775808)), .null]).WellFormed :=
    ⟨rfl, trivial, trivial⟩
  have h := wellFormed_valued hvalue (by decide)
  exact (survives_iff_value_ne_null h).2.2.mpr (by simp [valued])

/-- A value that is `null` does not. -/
theorem null_not_survived :
    (valued .null).WellFormed ∧ ofBytes (valued .null).toBytes = .ok (.sample 1) ∧
      (Parameters.sample 1).same (valued .null) = false ∧ ¬ Store.Survives (valued .null) := by
  have h : (valued .null).WellFormed := wellFormed_valued trivial (by decide)
  have hread : ofBytes (valued .null).toBytes = .ok (.sample 1) := by
    rw [ofBytes_toBytes, echo_of_wellFormed h]
    rfl
  have hother : (Parameters.sample 1).same (valued .null) = false := by decide
  refine ⟨h, hread, hother, ?_⟩
  rintro ⟨q, hq, hsame⟩
  obtain rfl := Except.ok.inj (hread.symm.trans hq)
  exact absurd (hother.symm.trans hsame) Bool.false_ne_true

end Parameters
end ParameterLog
