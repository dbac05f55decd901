/-
Module: ParameterLog.Proofs.ShortestDecimals
Purpose: the decimal that is written for a double rounds to it and is the shortest that does.
Main exports: Json.Double.mantissa_lt_of_ofRatio, Json.Double.text_of_negative,
  Json.Double.Rounds, Json.Double.onGrid_cases, Json.Double.shortest_rounds,
  Json.Double.shortest_coarsest
-/
import Mathlib.Algebra.GroupWithZero.Nat
import ParameterLog.Json.Decimal

/-!
A decimal rounds to a double if it is nearer to it than to any other double, or as near as to a
neighbour when the mantissa is even (`Rounds`). On one decimal grid
the two neighbours of the value stand for all: if neither rounds to the double, then nothing on that
grid does (`onGrid_cases`). The interval is wider than the last of seventeen digits
(`exists_rounds`), so the search from coarse to fine ends with a decimal that rounds to the double
(`shortest_rounds`), and no decimal on a coarser grid does (`shortest_coarsest`).
-/

namespace ParameterLog.Json

/-! ### Doubles -/

theorem roundHalfEven_le (num den : Nat) : roundHalfEven num den ≤ num / den + 1 := by
  simp only [roundHalfEven]
  split
  · exact Nat.le_succ _
  · split <;> omega

namespace Double

theorem scaleDown_eq (num den : Nat) (e : Int) :
    scaleDown num den e = (num * 2 ^ (-e).toNat, den * 2 ^ e.toNat) := by
  cases e with
  | ofNat e =>
    have hnone : (-(e : Int)).toNat = 0 := by omega
    simp [scaleDown, hnone]
  | negSucc e =>
    have hnone : (Int.negSucc e).toNat = 0 := by omega
    simp [scaleDown, hnone]

/-- A ratio has at most 53 bits before the point in units of its exponent. -/
theorem scaled_lt {num den : Nat} (hden : 0 < den) :
    let scaled := scaleDown num den (exponentOf num den)
    scaled.1 / scaled.2 < 2 * leastFull := by
  -- Above the first guess, the numbers of bits leave no choice.
  have habove {e : Int} (he : (Nat.log2 num : Int) - Nat.log2 den - 52 ≤ e) :
      (scaleDown num den e).1 / (scaleDown num den e).2 < 2 * leastFull := by
    rw [scaleDown_eq]
    refine (Nat.div_lt_iff_lt_mul (Nat.mul_pos hden (Nat.two_pow_pos _))).mpr ?_
    have hbits : num.log2 + 1 + (-e).toNat ≤ 53 + (den.log2 + e.toNat) := by omega
    have hfull : 2 * leastFull = 2 ^ 53 := rfl
    calc num * 2 ^ (-e).toNat
      _ < 2 ^ (num.log2 + 1) * 2 ^ (-e).toNat :=
        Nat.mul_lt_mul_of_pos_right Nat.lt_log2_self (Nat.two_pow_pos _)
      _ = 2 ^ (num.log2 + 1 + (-e).toNat) := (Nat.pow_add ..).symm
      _ ≤ 2 ^ (53 + (den.log2 + e.toNat)) := Nat.pow_le_pow_right (by decide) hbits
      _ = 2 ^ 53 * (2 ^ den.log2 * 2 ^ e.toNat) := by rw [Nat.pow_add, Nat.pow_add]
      _ ≤ 2 * leastFull * (den * 2 ^ e.toNat) := by
        rw [hfull]
        exact Nat.mul_le_mul_left _ (Nat.mul_le_mul_right _ (Nat.log2_self_le (Nat.ne_of_gt hden)))
  simp only [exponentOf]
  generalize hguess : (Nat.log2 num : Int) - Nat.log2 den - 53 = guess at *
  split
  · exact habove (by omega)
  · next hfew =>
    rcases Int.lt_or_le guess leastExponent with hlt | hle
    · exact habove (by omega)
    · rw [Int.max_eq_left hle]
      exact Nat.lt_of_not_le hfew

/-- The mantissa of a rounded ratio has at most 53 bits. -/
theorem mantissa_lt_of_ofRatio {negative : Bool} {num den : Nat} {d : Double} (hden : 0 < den)
    (h : ofRatio negative num den = some d) : d.mantissa < 2 * leastFull := by
  have hbound := @scaled_lt num den hden
  have hround := roundHalfEven_le (scaleDown num den (exponentOf num den)).1
    (scaleDown num den (exponentOf num den)).2
  simp only [ofRatio] at h
  split at h
  · obtain rfl := Option.some.inj h
    exact Nat.mul_pos (by decide) (by decide)
  · split at h
    · split at h
      · contradiction
      · obtain rfl := Option.some.inj h
        exact (by decide : leastFull < 2 * leastFull)
    · split at h
      · contradiction
      · obtain rfl := Option.some.inj h
        simp only at hbound ⊢
        omega

example : ofRatio false (2 ^ 53 + 1) 1 = some ⟨false, leastFull, 1⟩ := by decide
example : ofRatio false 1 (2 ^ 1074) = some ⟨false, 1, -1074⟩ := by decide +kernel

end Double

/-! ### Decimals -/

namespace Decimal

theorem width_pos (n : Nat) : 0 < width n := Nat.length_toDigits_pos

/-- A natural has fewer digits than a power of ten above it. -/
theorem lt_pow_width (n : Nat) : n < 10 ^ width n :=
  (Nat.length_toDigits_le_iff (by decide) (width_pos n)).mp (Nat.le_refl _)

theorem pow_width_le {n : Nat} (h : 0 < n) : 10 ^ (width n - 1) ≤ n := by
  by_cases hone : width n = 1
  · rw [hone]
    exact h
  · have hpos := width_pos n
    have hnot : ¬ width n ≤ width n - 1 := by omega
    rw [width, Nat.length_toDigits_le_iff (by decide) (by rw [← width]; omega)] at hnot
    exact Nat.le_of_not_lt hnot

theorem scaleDown_eq (num den : Nat) (e : Int) :
    scaleDown num den e = (num * 10 ^ (-e).toNat, den * 10 ^ e.toNat) := by
  cases e with
  | ofNat e =>
    have hnone : (-(e : Int)).toNat = 0 := by omega
    simp [scaleDown, hnone]
  | negSucc e =>
    have hnone : (Int.negSucc e).toNat = 0 := by omega
    simp [scaleDown, hnone]

/-- The factors of a grid that is finer by `n` digits. -/
theorem scale_finer (e : Int) (n : Nat) :
    10 ^ (-(e - n)).toNat * 10 ^ e.toNat = 10 ^ n * (10 ^ (-e).toNat * 10 ^ (e - n).toNat) := by
  rw [← Nat.pow_add, ← Nat.pow_add, ← Nat.pow_add]
  congr 1
  omega

/-- The power of ten that the magnitude of a ratio stands for is not above it. -/
theorem magnitude_le {num den : Nat} (hnum : 0 < num) (hden : 0 < den) :
    den * 10 ^ (magnitude num den).toNat ≤ num * 10 ^ (-magnitude num den).toNat := by
  rw [magnitude]
  split
  · next hle =>
    have hpos := width_pos (num / den)
    have hpow := pow_width_le (Nat.div_pos hle hden)
    have hup : ((width (num / den) : Int) - 1).toNat = width (num / den) - 1 := by omega
    have hdown : (-((width (num / den) : Int) - 1)).toNat = 0 := by omega
    rw [hup, hdown, Nat.pow_zero, Nat.mul_one]
    calc den * 10 ^ (width (num / den) - 1)
      _ ≤ den * (num / den) := Nat.mul_le_mul_left den hpow
      _ ≤ num := Nat.mul_div_le num den
  · have hpos := width_pos (den / num)
    simp only [Nat.pow_eq]
    split
    · next hexact =>
      have hup : (1 - (width (den / num) : Int)).toNat = 0 := by omega
      have hdown : (-(1 - (width (den / num) : Int))).toNat = width (den / num) - 1 := by omega
      refine Nat.le_of_eq ?_
      rw [hup, hdown, hexact, Nat.pow_zero, Nat.mul_one]
    · have hup : (-(width (den / num) : Int)).toNat = 0 := by omega
      have hdown : (- -(width (den / num) : Int)).toNat = width (den / num) := by omega
      rw [hup, hdown, Nat.pow_zero, Nat.mul_one, Nat.mul_comm]
      exact Nat.le_of_lt ((Nat.div_lt_iff_lt_mul hnum).mp (lt_pow_width (den / num)))

end Decimal

namespace Double

/-! ### Signs -/

theorem firstOnGrid_negate (d : Double) (count : Nat) (e : Int) :
    d.negate.firstOnGrid count e = d.firstOnGrid count e := by
  induction count generalizing e with
  | zero => rfl
  | succ count ih =>
    have hsame : d.negate.onGrid e = d.onGrid e := rfl
    rw [firstOnGrid, firstOnGrid, hsame, ih]

/-- The sign of a double is written before its magnitude. -/
theorem text_of_negative {mantissa : Nat} {e : Int} :
    (⟨true, mantissa, e⟩ : Double).text = "-" ++ (⟨false, mantissa, e⟩ : Double).text := by
  have hsame : (⟨true, mantissa, e⟩ : Double).shortest = (⟨false, mantissa, e⟩ : Double).shortest :=
    firstOnGrid_negate ⟨false, mantissa, e⟩ 17 _
  have hzero : (⟨true, mantissa, e⟩ : Double).isZero = (⟨false, mantissa, e⟩ : Double).isZero := rfl
  rw [text, text, hsame, hzero]
  split <;> simp

example : (zero true).text = "-" ++ (zero false).text := by decide

/-! ### Rounding -/

/-- Whether a decimal lies in the interval of the numbers that round to a positive double; the ends
of the interval belong to it when the mantissa is even. -/
def Rounds (d : Double) (decimal : Decimal) : Prop :=
  let (low, _, high, den) := d.interval
  let (low, lowUnit) := Decimal.scaleDown low den decimal.exponent
  let (high, highUnit) := Decimal.scaleDown high den decimal.exponent
  (low < decimal.digits * lowUnit ∨ d.mantissa % 2 = 0 ∧ low = decimal.digits * lowUnit) ∧
    (decimal.digits * highUnit < high ∨ d.mantissa % 2 = 0 ∧ decimal.digits * highUnit = high)

variable {d : Double}

/-- The interval of a double contains it. -/
theorem interval_bounds (h : 0 < d.mantissa) :
    ∃ low high value den, d.interval = (low, value, high, den) ∧ low < value ∧ value < high ∧
      0 < den := by
  refine ⟨_, _, _, _, rfl, ?_⟩
  rw [scaleDown_eq]
  have hunit : 0 < 1 * 2 ^ (-(2 - d.exponent)).toNat := by
    rw [Nat.one_mul]
    exact Nat.two_pow_pos _
  refine ⟨Nat.mul_lt_mul_of_pos_right ?_ hunit, Nat.mul_lt_mul_of_pos_right (by omega) hunit, ?_⟩
  · split <;> omega
  · simp only [Nat.one_mul]
    exact Nat.two_pow_pos _

/-- A decimal on a grid rounds to the double if its digits, in units of the grid, are in the
interval. -/
theorem rounds_iff {low value high den : Nat} (h : d.interval = (low, value, high, den))
    (digits : Nat) (e : Int) :
    d.Rounds ⟨digits, e⟩ ↔
      (low * 10 ^ (-e).toNat < digits * (den * 10 ^ e.toNat) ∨
        d.mantissa % 2 = 0 ∧ low * 10 ^ (-e).toNat = digits * (den * 10 ^ e.toNat)) ∧
      (digits * (den * 10 ^ e.toNat) < high * 10 ^ (-e).toNat ∨
        d.mantissa % 2 = 0 ∧ digits * (den * 10 ^ e.toNat) = high * 10 ^ (-e).toNat) := by
  simp only [Rounds, h, Decimal.scaleDown_eq]

/-- On a grid, either a decimal is found that rounds to the double or there is none. -/
theorem onGrid_cases (hpos : 0 < d.mantissa) (e : Int) :
    (∃ digits, d.onGrid e = some ⟨digits, e⟩ ∧ d.Rounds ⟨digits, e⟩) ∨
      d.onGrid e = none ∧ ∀ digits, ¬ d.Rounds ⟨digits, e⟩ := by
  obtain ⟨low, high, value, den, hinterval, hlow, hhigh, hden⟩ := interval_bounds hpos
  have hrounds (digits : Nat) := rounds_iff hinterval digits e
  have hscale : 0 < 10 ^ (-e).toNat := Nat.pow_pos (by decide)
  have hunit : 0 < den * 10 ^ e.toNat := Nat.mul_pos hden (Nat.pow_pos (by decide))
  have hbelow := Nat.mul_lt_mul_of_pos_right hlow hscale
  have habove := Nat.mul_lt_mul_of_pos_right hhigh hscale
  simp only [onGrid, hinterval, Decimal.scaleDown_eq]
  generalize low * 10 ^ (-e).toNat = low, value * 10 ^ (-e).toNat = value,
    high * 10 ^ (-e).toNat = high, den * 10 ^ e.toNat = unit at *
  have hdown : value / unit * unit ≤ value := Nat.div_mul_le_self value unit
  have hup : value < (value / unit + 1) * unit := Nat.lt_mul_of_div_lt (Nat.lt_succ_self _) hunit
  generalize value / unit = down at *
  -- The numbers next to the value are in the interval if any number of the grid is.
  have hnext {digits : Nat} (h : d.Rounds ⟨digits, e⟩) :
      d.Rounds ⟨down, e⟩ ∨ d.Rounds ⟨down + 1, e⟩ := by
    rw [hrounds] at h ⊢
    rw [hrounds]
    rcases Nat.lt_or_ge down digits with hlt | hge
    · have hfar := Nat.mul_le_mul_right unit (show down + 1 ≤ digits from hlt)
      right; omega
    · have hfar := Nat.mul_le_mul_right unit hge
      left; omega
  have hdownIff : d.Rounds ⟨down, e⟩ ↔
      low < down * unit ∨ d.mantissa % 2 = 0 ∧ low = down * unit := by
    rw [hrounds]; omega
  have hupIff : d.Rounds ⟨down + 1, e⟩ ↔
      (down + 1) * unit < high ∨ d.mantissa % 2 = 0 ∧ (down + 1) * unit = high := by
    rw [hrounds]; omega
  by_cases hlower : d.Rounds ⟨down, e⟩
  · have hfits := hdownIff.mp hlower
    by_cases hupper : d.Rounds ⟨down + 1, e⟩
    · rw [if_pos ⟨hfits, hupIff.mp hupper⟩]
      refine .inl ⟨_, rfl, ?_⟩
      split
      · exact hlower
      · exact hupper
    · rw [if_neg fun hboth => hupper (hupIff.mpr hboth.2), if_pos hfits]
      exact .inl ⟨down, rfl, hlower⟩
  · have hmisses := mt hdownIff.mpr hlower
    rw [if_neg fun hboth => hmisses hboth.1, if_neg hmisses]
    by_cases hupper : d.Rounds ⟨down + 1, e⟩
    · rw [if_pos (hupIff.mp hupper)]
      exact .inl ⟨down + 1, rfl, hupper⟩
    · rw [if_neg (mt hupIff.mpr hupper)]
      exact .inr ⟨rfl, fun digits h => (hnext h).elim hlower hupper⟩

/-- Cutting a zero off the digits leaves a decimal where it is. -/
theorem rounds_shift (hpos : 0 < d.mantissa) {digits : Nat} {e : Int}
    (h : d.Rounds ⟨10 * digits, e⟩) : d.Rounds ⟨digits, e + 1⟩ := by
  obtain ⟨low, high, value, den, hinterval, -⟩ := interval_bounds hpos
  rw [rounds_iff hinterval] at h ⊢
  rcases Int.lt_or_le e 0 with hneg | hnonneg
  · have hunit : (e + 1).toNat = e.toNat := by omega
    have hscale : (-e).toNat = (-(e + 1)).toNat + 1 := by omega
    rw [hscale, Nat.pow_succ] at h
    rw [hunit]
    grind
  · have hunit : (e + 1).toNat = e.toNat + 1 := by omega
    have hscale : (-(e + 1)).toNat = (-e).toNat := by omega
    rw [hunit, hscale, Nat.pow_succ]
    grind

/-- Cutting zeros off leaves a decimal where it is, on a grid that is not finer. -/
theorem rounds_trim (hpos : 0 < d.mantissa) {decimal : Decimal} (h : d.Rounds decimal)
    (count : Nat) :
    d.Rounds (decimal.trim count) ∧ decimal.exponent ≤ (decimal.trim count).exponent := by
  induction count generalizing decimal with
  | zero => exact ⟨h, Int.le_refl _⟩
  | succ count ih =>
    rw [Decimal.trim]
    split
    · next hzero =>
      have hdigits : decimal.digits = 10 * (decimal.digits / 10) := by omega
      have hshift : d.Rounds ⟨decimal.digits / 10, decimal.exponent + 1⟩ :=
        rounds_shift hpos (hdigits ▸ h)
      obtain ⟨hrounds, hcoarser⟩ := ih hshift
      exact ⟨hrounds, Int.le_trans (Int.le_add_one (Int.le_refl _)) hcoarser⟩
    · exact ⟨h, Int.le_refl _⟩

/-- If a decimal on one of the grids that are tried rounds to the double, one that does is found,
on a grid that is not finer. -/
theorem firstOnGrid_spec (hpos : 0 < d.mantissa) {count digits : Nat} {e exponent : Int}
    (h : d.Rounds ⟨digits, exponent⟩) (hfine : e < exponent + count) (hcoarse : exponent ≤ e) :
    d.Rounds (d.firstOnGrid count e) ∧ exponent ≤ (d.firstOnGrid count e).exponent := by
  induction count generalizing e with
  | zero => omega
  | succ count ih =>
    rw [firstOnGrid]
    rcases onGrid_cases hpos e with ⟨found, hfound, hrounds⟩ | ⟨hnone, hall⟩
    · rw [hfound]
      obtain ⟨htrimmed, hcoarser⟩ := rounds_trim hpos hrounds 17
      exact ⟨htrimmed, Int.le_trans hcoarse hcoarser⟩
    · rw [hnone]
      have hother : exponent ≠ e := by
        rintro rfl
        exact hall digits h
      exact ih (by omega) (by omega)

/-- The interval of a double and its ratio agree on its value, and the interval is wider than the
sixteenth digit of the value. -/
theorem interval_ratio {low value high den : Nat} (h : d.interval = (low, value, high, den))
    (hpos : 0 < d.mantissa) (hbound : d.mantissa < 2 * leastFull) :
    value * d.ratio.2 = d.ratio.1 * den ∧ value < 10 ^ 16 * (high - low) := by
  simp only [interval, scaleDown_eq, Prod.mk.injEq] at h
  obtain ⟨rfl, rfl, rfl, rfl⟩ := h
  constructor
  · have hpow : 4 * (2 ^ (-(2 - d.exponent)).toNat * 2 ^ (-d.exponent).toNat) =
        2 ^ d.exponent.toNat * 2 ^ (2 - d.exponent).toNat := by
      have hfour : 4 = 2 ^ 2 := rfl
      rw [hfour, ← Nat.pow_add, ← Nat.pow_add, ← Nat.pow_add]
      congr 1
      omega
    rw [ratio, scaleDown_eq, Int.neg_neg]
    grind
  · have hunit : 0 < 1 * 2 ^ (-(2 - d.exponent)).toNat := by
      rw [Nat.one_mul]
      exact Nat.two_pow_pos _
    generalize 1 * 2 ^ (-(2 - d.exponent)).toNat = unit at *
    rw [← Nat.mul_sub_right_distrib, ← Nat.mul_assoc]
    refine Nat.mul_lt_mul_of_pos_right ?_ hunit
    rw [leastFull] at *
    split <;> omega

/-- A multiple of a unit lies between numbers that are further apart. -/
theorem exists_mul_between {low high unit : Nat} (hunit : 0 < unit) (h : low + unit < high) :
    ∃ digits, low < digits * unit ∧ digits * unit < high := by
  have hbelow : low / unit * unit ≤ low := Nat.div_mul_le_self low unit
  have habove : low < (low / unit + 1) * unit := Nat.lt_mul_of_div_lt (Nat.lt_succ_self _) hunit
  refine ⟨low / unit + 1, habove, ?_⟩
  rw [Nat.succ_mul]
  omega

/-- Some decimal with seventeen digits rounds to the double. -/
theorem exists_rounds (hpos : 0 < d.mantissa) (hbound : d.mantissa < 2 * leastFull) :
    ∃ digits, d.Rounds ⟨digits, Decimal.magnitude d.ratio.1 d.ratio.2 - 16⟩ := by
  obtain ⟨low, high, value, den, hinterval, -, -, hsome⟩ := interval_bounds hpos
  obtain ⟨hratio, hwide⟩ := interval_ratio hinterval hpos hbound
  have hnum : 0 < d.ratio.1 := by
    rw [ratio, scaleDown_eq]
    exact Nat.mul_pos hpos (Nat.two_pow_pos _)
  have hden : 0 < d.ratio.2 := by
    rw [ratio, scaleDown_eq, Nat.one_mul]
    exact Nat.two_pow_pos _
  have hmagnitude := Decimal.magnitude_le hnum hden
  generalize Decimal.magnitude d.ratio.1 d.ratio.2 = top at *
  have hscaled : den * 10 ^ top.toNat ≤ value * 10 ^ (-top).toNat := by
    refine Nat.le_of_mul_le_mul_left ?_ hden
    calc d.ratio.2 * (den * 10 ^ top.toNat)
      _ = den * (d.ratio.2 * 10 ^ top.toNat) := Nat.mul_left_comm ..
      _ ≤ den * (d.ratio.1 * 10 ^ (-top).toNat) := Nat.mul_le_mul_left den hmagnitude
      _ = d.ratio.2 * (value * 10 ^ (-top).toNat) := by grind
  have hfiner := Decimal.scale_finer top 16
  have hpow : 0 < 10 ^ top.toNat := Nat.pow_pos (by decide)
  have hfineUp : 0 < 10 ^ (top - 16).toNat := Nat.pow_pos (by decide)
  have hfineDown : 0 < 10 ^ (-(top - 16)).toNat := Nat.pow_pos (by decide)
  have hrounds (digits : Nat) := rounds_iff hinterval digits (top - 16)
  generalize 10 ^ top.toNat = up, 10 ^ (-top).toNat = down, 10 ^ (top - 16).toNat = fineUp,
    10 ^ (-(top - 16)).toNat = fineDown at *
  have hstep : den * fineUp < (high - low) * fineDown := by
    refine Nat.lt_of_mul_lt_mul_left (a := 10 ^ 16 * up) ?_
    calc 10 ^ 16 * up * (den * fineUp)
      _ = den * up * (10 ^ 16 * fineUp) := by grind
      _ ≤ value * down * (10 ^ 16 * fineUp) := Nat.mul_le_mul_right _ hscaled
      _ = value * (fineDown * up) := by grind
      _ < 10 ^ 16 * (high - low) * (fineDown * up) :=
        Nat.mul_lt_mul_of_pos_right hwide (Nat.mul_pos hfineDown hpow)
      _ = 10 ^ 16 * up * ((high - low) * fineDown) := by grind
  rw [Nat.sub_mul] at hstep
  obtain ⟨digits, hlow, hhigh⟩ :=
    exists_mul_between (Nat.mul_pos hsome hfineUp) (Nat.add_lt_of_lt_sub' hstep)
  exact ⟨digits, (hrounds digits).mpr ⟨.inl hlow, .inl hhigh⟩⟩

/-- The shortest decimal of a double rounds to it. -/
theorem shortest_rounds (h : d.isZero = false) (hbound : d.mantissa < 2 * leastFull) :
    d.Rounds d.shortest := by
  have hpos : 0 < d.mantissa := Nat.pos_of_ne_zero (by simpa [isZero] using h)
  obtain ⟨digits, hdigits⟩ := exists_rounds hpos hbound
  have hshortest : d.shortest = d.firstOnGrid 17 (Decimal.magnitude d.ratio.1 d.ratio.2) := rfl
  rw [hshortest]
  exact (firstOnGrid_spec hpos hdigits (by omega) (by omega)).1

/-- No decimal on a coarser grid does, up to the grid of the first digit. -/
theorem shortest_coarsest (h : d.isZero = false) (hbound : d.mantissa < 2 * leastFull)
    {digits : Nat} {exponent : Int} (hrounds : d.Rounds ⟨digits, exponent⟩)
    (hfirst : exponent ≤ Decimal.magnitude d.ratio.1 d.ratio.2) :
    exponent ≤ d.shortest.exponent := by
  have hpos : 0 < d.mantissa := Nat.pos_of_ne_zero (by simpa [isZero] using h)
  have hshortest : d.shortest = d.firstOnGrid 17 (Decimal.magnitude d.ratio.1 d.ratio.2) := rfl
  rw [hshortest]
  rcases Int.lt_or_le exponent (Decimal.magnitude d.ratio.1 d.ratio.2 - 16) with hfine | hcoarse
  · obtain ⟨some, hsome⟩ := exists_rounds hpos hbound
    exact Int.le_trans (Int.le_of_lt hfine) (firstOnGrid_spec hpos hsome (by omega) (by omega)).2
  · exact (firstOnGrid_spec hpos hrounds (by omega) hfirst).2

example : (ofRatio false 1 10).map text = some "0.1" := by decide +kernel
example : (ofRatio false (2 ^ 64) 1).map text = some "1.8446744073709552e+19" := by decide +kernel

end Double
end ParameterLog.Json
