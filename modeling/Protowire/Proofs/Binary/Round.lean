import Mathlib
import Protowire.Binary.Round

/-!
Rounding leaves alone what needs no rounding. A magnitude stands for its significand times a power
of two (`Format.value`); a fraction with this value is rounded to this magnitude
(`Format.round_eq`). The values of single precision are among those of double precision, so that
widening a number and narrowing it again gives it back.
-/

namespace Protowire.Binary

/-! ### Powers -/

theorem zpow_eq_div (x : ℚ) (e : Int) : x ^ e = x ^ e.toNat / x ^ (-e).toNat := by
  obtain ⟨n, rfl | rfl⟩ := e.eq_nat_or_neg
  · simp
  · simp [div_eq_mul_inv]

theorem two_zpow (e : Int) : (2 : ℚ) ^ e = 2 ^ e.toNat / 2 ^ (-e).toNat := zpow_eq_div 2 e

/-- Scaling by a power of the base is exact. -/
theorem scaled_spec {base : Nat} (hbase : 0 < base) (digits : Nat) (exponent : Int) :
    0 < (scaled base digits exponent).2 ∧
      ((scaled base digits exponent).1 : ℚ) / (scaled base digits exponent).2 =
        digits * (base : ℚ) ^ exponent := by
  have hpow (n : Nat) : base.pow n = base ^ n := rfl
  refine ⟨Nat.pow_pos hbase, ?_⟩
  rw [zpow_eq_div]
  simp only [scaled, hpow, Nat.cast_mul, Nat.cast_pow, mul_div_assoc]

/-- A number between two neighbouring powers of two has the exponent of the smaller one. -/
theorem log_eq {x : ℚ} {e : Int} (hlow : (2 : ℚ) ^ e ≤ x) (hhigh : x < (2 : ℚ) ^ (e + 1)) :
    Int.log 2 x = e := by
  have hx : 0 < x := lt_of_lt_of_le (by positivity) hlow
  have hle := (Int.zpow_le_iff_le_log (b := 2) (by decide) hx).mp (by exact_mod_cast hlow)
  have hlt := (Int.lt_zpow_iff_log_lt (b := 2) (by decide) hx).mp (by exact_mod_cast hhigh)
  omega

theorem log2_zpow {n : Nat} (hn : 0 < n) :
    (2 : ℚ) ^ (n.log2 : Int) ≤ n ∧ (n : ℚ) < (2 : ℚ) ^ ((n.log2 : Int) + 1) := by
  rw [← Nat.cast_add_one, zpow_natCast, zpow_natCast]
  exact ⟨by exact_mod_cast Nat.log2_self_le (by omega), by exact_mod_cast Nat.lt_log2_self⟩

theorem shiftLeft_lt_iff {num den : Nat} (hden : 0 < den) (e : Int) :
    num <<< (-e).toNat < den <<< e.toNat ↔ (num : ℚ) / den < (2 : ℚ) ^ e := by
  have hden' : (0 : ℚ) < den := by exact_mod_cast hden
  rw [two_zpow, div_lt_div_iff₀ hden' (by positivity), Nat.shiftLeft_eq, Nat.shiftLeft_eq,
    mul_comm ((2 : ℚ) ^ e.toNat)]
  exact_mod_cast Iff.rfl

theorem floorLog2_eq {num den : Nat} (hnum : 0 < num) (hden : 0 < den) :
    floorLog2 num den = Int.log 2 ((num : ℚ) / den) := by
  have hnum' : (0 : ℚ) < num := by exact_mod_cast hnum
  have hden' : (0 : ℚ) < den := by exact_mod_cast hden
  obtain ⟨hnumLow, hnumHigh⟩ := log2_zpow hnum
  obtain ⟨hdenLow, hdenHigh⟩ := log2_zpow hden
  -- the quotient of the two powers is off by one at most, and then it is too large
  have hlow : (2 : ℚ) ^ ((num.log2 : Int) - den.log2 - 1) ≤ num / den := by
    rw [le_div_iff₀ hden']
    calc (2 : ℚ) ^ ((num.log2 : Int) - den.log2 - 1) * den
        ≤ (2 : ℚ) ^ ((num.log2 : Int) - den.log2 - 1) * (2 : ℚ) ^ ((den.log2 : Int) + 1) := by
          gcongr
      _ = (2 : ℚ) ^ (num.log2 : Int) := by
          rw [← zpow_add₀ (by norm_num)]
          congr 1
          omega
      _ ≤ num := hnumLow
  have hhigh : (num : ℚ) / den < (2 : ℚ) ^ ((num.log2 : Int) - den.log2 + 1) := by
    rw [div_lt_iff₀ hden']
    calc (num : ℚ) < (2 : ℚ) ^ ((num.log2 : Int) + 1) := hnumHigh
      _ = (2 : ℚ) ^ ((num.log2 : Int) - den.log2 + 1) * (2 : ℚ) ^ (den.log2 : Int) := by
          rw [← zpow_add₀ (by norm_num)]
          congr 1
          omega
      _ ≤ (2 : ℚ) ^ ((num.log2 : Int) - den.log2 + 1) * den := by gcongr
  simp only [floorLog2, shiftLeft_lt_iff hden]
  split
  · rename_i hlt
    exact (log_eq hlow (by rwa [sub_add_cancel])).symm
  · rename_i hge
    exact (log_eq (not_lt.mp hge) hhigh).symm

theorem roundDiv_mul {den : Nat} (n : Nat) (hden : 0 < den) : roundDiv (n * den) den = n := by
  rw [roundDiv, Nat.mul_mod_left, Nat.mul_div_cancel n hden, if_pos (by omega)]

/-! ### The value of a magnitude -/

namespace Format

variable {F : Format} {m : Nat}

/-- How far the last place of a magnitude is above the smallest one. -/
def step (F : Format) (m : Nat) : Nat := m / 2 ^ F.fractionBits - 1

/-- The digits of a magnitude: the fraction, with the one in front of it that a normal number hides.
-/
def significand (F : Format) (m : Nat) : Nat := m - F.step m * 2 ^ F.fractionBits

/-- The number that a finite magnitude stands for. -/
def value (F : Format) (m : Nat) : ℚ := F.significand m * (2 : ℚ) ^ (F.minExponent + F.step m)

theorem significand_spec (F : Format) (m : Nat) :
    F.step m * 2 ^ F.fractionBits + F.significand m = m ∧
      F.significand m < 2 ^ (F.fractionBits + 1) ∧
      (F.step m = 0 ∨ 2 ^ F.fractionBits ≤ F.significand m) := by
  have hsplit := Nat.div_add_mod m (2 ^ F.fractionBits)
  have hlow := Nat.mod_lt m (Nat.two_pow_pos F.fractionBits)
  rw [significand, step, Nat.pow_succ]
  generalize 2 ^ F.fractionBits = place at *
  cases hexponent : m / place with
  | zero =>
    rw [hexponent] at hsplit
    omega
  | succ k =>
    rw [hexponent, Nat.mul_succ, Nat.mul_comm] at hsplit
    simp only [Nat.add_one_sub_one]
    omega

/-- A magnitude is put together from its step and its significand in one way. -/
theorem step_compose {k digits : Nat} (hdigits : digits < 2 ^ (F.fractionBits + 1))
    (hnormal : k = 0 ∨ 2 ^ F.fractionBits ≤ digits) :
    F.step (k * 2 ^ F.fractionBits + digits) = k ∧
      F.significand (k * 2 ^ F.fractionBits + digits) = digits := by
  have hpos := Nat.two_pow_pos F.fractionBits
  have hstep : F.step (k * 2 ^ F.fractionBits + digits) = k := by
    rw [Nat.pow_succ] at hdigits
    rw [step, Nat.add_comm, Nat.add_mul_div_right _ _ hpos]
    by_cases hlarge : 2 ^ F.fractionBits ≤ digits
    · have hone : digits / 2 ^ F.fractionBits = 1 :=
        Nat.div_eq_of_lt_le (by omega) (by omega)
      omega
    · rw [Nat.div_eq_of_lt (by omega)]
      omega
  refine ⟨hstep, ?_⟩
  rw [significand, hstep]
  omega

theorem value_zero (F : Format) : F.value 0 = 0 := by
  have hsplit := (F.significand_spec 0).1
  have hsignificand : F.significand 0 = 0 := by omega
  rw [value, hsignificand, Nat.cast_zero, zero_mul]

theorem significand_pos (hm : 0 < m) : 0 < F.significand m := by
  obtain ⟨hsplit, _, hnormal⟩ := F.significand_spec m
  have hpos := Nat.two_pow_pos F.fractionBits
  rcases hnormal with hstep | hlarge
  · rw [hstep] at hsplit
    omega
  · omega

theorem toFraction_eq (F : Format) (bits : Nat) :
    F.toFraction bits = scaled 2 (F.significand (F.magnitude bits))
      (F.minExponent + F.step (F.magnitude bits)) := by
  have hsplit := Nat.div_add_mod (F.magnitude bits) (2 ^ F.fractionBits)
  simp only [toFraction, Nat.one_shiftLeft, Nat.shiftRight_eq_div_pow, significand, step]
  split
  · rename_i hzero
    rw [hzero] at hsplit ⊢
    simp only [Nat.zero_sub, Nat.zero_mul, Nat.sub_zero, Nat.cast_zero, Int.add_zero]
    rw [← hsplit]
    simp
  · rename_i hpos
    obtain ⟨k, hk⟩ := Nat.exists_eq_succ_of_ne_zero hpos
    rw [hk, Nat.mul_succ, Nat.mul_comm] at hsplit
    rw [hk, Nat.succ_eq_add_one, Nat.add_sub_cancel]
    congr 1
    omega

/-- A number is told as a fraction exactly. -/
theorem toFraction_spec (F : Format) (bits : Nat) :
    0 < (F.toFraction bits).2 ∧
      ((F.toFraction bits).1 : ℚ) / (F.toFraction bits).2 = F.value (F.magnitude bits) := by
  rw [toFraction_eq]
  exact scaled_spec (by decide) _ _

/-- A fraction that is the value of a magnitude is rounded to it. -/
theorem round_eq {num den : Nat} (hden : 0 < den) (hfinite : m < F.infinity)
    (hvalue : (num : ℚ) / den = F.value m) : F.round num den = m := by
  have hden' : (den : ℚ) ≠ 0 := by exact_mod_cast hden.ne'
  obtain ⟨hsplit, hbound, hnormal⟩ := F.significand_spec m
  obtain rfl | hm := Nat.eq_zero_or_pos m
  · have hzero : (num : ℚ) = 0 := by
      rw [value_zero] at hvalue
      simpa [hden.ne'] using hvalue
    rw [round, if_pos (by exact_mod_cast hzero)]
  · have hpos := significand_pos (F := F) hm
    have hnum : 0 < num := by
      have hvaluePos : 0 < F.value m := by
        have hpos' : (0 : ℚ) < F.significand m := by exact_mod_cast hpos
        rw [value]
        positivity
      rw [← hvalue] at hvaluePos
      by_contra h
      obtain rfl : num = 0 := by omega
      simp at hvaluePos
    -- the exponent of the value is that of the significand, so the last place is where it was
    obtain ⟨hlow, hhigh⟩ := log2_zpow hpos
    have hlog : floorLog2 num den =
        (F.significand m).log2 + (F.minExponent + F.step m) := by
      rw [floorLog2_eq hnum hden, hvalue, value]
      have hplaced (e : Int) : (2 : ℚ) ^ (e + (F.minExponent + F.step m)) =
          (2 : ℚ) ^ e * (2 : ℚ) ^ (F.minExponent + F.step m) := zpow_add₀ (by norm_num) _ _
      apply log_eq
      · rw [hplaced]
        gcongr
      · rw [add_right_comm, hplaced]
        gcongr
    have hplace : max (floorLog2 num den - F.fractionBits) F.minExponent =
        F.minExponent + F.step m := by
      have hlog2 := (Nat.log2_lt hpos.ne').mpr hbound
      rw [hlog]
      rcases hnormal with hstep | hlarge
      · omega
      · have hlog2' := (Nat.le_log2 hpos.ne').mpr hlarge
        omega
    have hdigits : num <<< (-(F.minExponent + F.step m)).toNat =
        F.significand m * den <<< (F.minExponent + F.step m).toNat := by
      rw [value, two_zpow, ← mul_div_assoc, div_eq_div_iff hden' (by positivity)] at hvalue
      rw [Nat.shiftLeft_eq, Nat.shiftLeft_eq, ← Nat.mul_assoc]
      have hnat : num * 2 ^ (-(F.minExponent + F.step m)).toNat =
          F.significand m * 2 ^ (F.minExponent + F.step m).toNat * den := by
        exact_mod_cast hvalue
      rw [hnat]
      ring
    have hshifted : 0 < den <<< (F.minExponent + F.step m).toNat := by
      rw [Nat.shiftLeft_eq]
      positivity
    have hstep : (F.minExponent + F.step m - F.minExponent).toNat = F.step m := by omega
    rw [round, if_neg (by omega)]
    simp only [hplace, hdigits, roundDiv_mul _ hshifted, hstep]
    rw [Nat.shiftLeft_eq, hsplit]
    exact Nat.min_eq_left hfinite.le

/-- A number with few enough digits, none of them below the smallest place, is the value of a
magnitude. -/
theorem exists_value {digits : Nat} {place : Int} (hdigits : digits < 2 ^ (F.fractionBits + 1))
    (hplace : F.minExponent ≤ place) :
    ∃ m, F.value m = digits * (2 : ℚ) ^ place ∧
      m < ((place - F.minExponent).toNat + 2) * 2 ^ F.fractionBits := by
  obtain rfl | hpos := Nat.eq_zero_or_pos digits
  · refine ⟨0, ?_, ?_⟩
    · rw [value_zero, Nat.cast_zero, zero_mul]
    · positivity
  · have hlog := (Nat.log2_lt hpos.ne').mpr hdigits
    -- the digits go up until the leading one is in its place or the last one in the smallest
    obtain ⟨k, shift, hsum, hnormal, hshift⟩ : ∃ k shift : Nat,
        place = F.minExponent + k + shift ∧ (k = 0 ∨ shift + digits.log2 = F.fractionBits) ∧
          shift + digits.log2 ≤ F.fractionBits := by
      by_cases h : (place - F.minExponent).toNat + digits.log2 ≤ F.fractionBits
      · exact ⟨0, (place - F.minExponent).toNat, by omega, by omega, h⟩
      · exact ⟨(place - F.minExponent).toNat - (F.fractionBits - digits.log2),
          F.fractionBits - digits.log2, by omega, by omega, by omega⟩
    have hlow : 2 ^ (shift + digits.log2) ≤ digits * 2 ^ shift := by
      rw [Nat.pow_add, Nat.mul_comm]
      exact Nat.mul_le_mul_right _ (Nat.log2_self_le hpos.ne')
    have hhigh : digits * 2 ^ shift < 2 ^ (F.fractionBits + 1) := by
      calc digits * 2 ^ shift < 2 ^ (digits.log2 + 1) * 2 ^ shift := by
            gcongr
            exact Nat.lt_log2_self
        _ = 2 ^ (shift + digits.log2 + 1) := by
            rw [← Nat.pow_add]
            congr 1
            omega
        _ ≤ 2 ^ (F.fractionBits + 1) := Nat.pow_le_pow_right (by decide) (by omega)
    have hnormal' : k = 0 ∨ 2 ^ F.fractionBits ≤ digits * 2 ^ shift := by
      rcases hnormal with hzero | hfull
      · exact .inl hzero
      · rw [hfull] at hlow
        exact .inr hlow
    have hcompose := step_compose (F := F) hhigh hnormal'
    refine ⟨k * 2 ^ F.fractionBits + digits * 2 ^ shift, ?_, ?_⟩
    · rw [value, hcompose.1, hcompose.2, hsum, zpow_add₀ (by norm_num) (F.minExponent + k),
        zpow_natCast]
      push_cast
      ring
    · have hk : k ≤ (place - F.minExponent).toNat := by omega
      rw [Nat.pow_succ] at hhigh
      calc k * 2 ^ F.fractionBits + digits * 2 ^ shift < (k + 2) * 2 ^ F.fractionBits := by
            rw [Nat.add_mul]
            omega
        _ ≤ ((place - F.minExponent).toNat + 2) * 2 ^ F.fractionBits := by gcongr

/-! ### Signs and other formats -/

theorem signBit_pos (F : Format) : 0 < F.signBit := by
  rw [signBit, Nat.one_shiftLeft]
  positivity

theorem infinity_lt_signBit (F : Format) : F.infinity < F.signBit := by
  rw [infinity, signBit, Nat.one_shiftLeft, Nat.one_shiftLeft, Nat.shiftLeft_eq, Nat.add_comm,
    Nat.pow_add]
  have hpos := Nat.two_pow_pos F.exponentBits
  gcongr
  omega

theorem magnitude_withSign (negative : Bool) (hm : m < F.signBit) :
    F.magnitude (F.withSign negative m) = m := by
  rw [magnitude, withSign]
  split
  · rw [Nat.add_mod_left, Nat.mod_eq_of_lt hm]
  · exact Nat.mod_eq_of_lt hm

theorem isNegative_withSign (negative : Bool) (hm : m < F.signBit) :
    F.isNegative (F.withSign negative m) = negative := by
  rw [isNegative, withSign]
  cases negative with
  | true => simp [Nat.add_div_left _ F.signBit_pos, Nat.div_eq_of_lt hm]
  | false => simp [Nat.div_eq_of_lt hm]

theorem withSign_magnitude {bits : Nat} (h : bits < 2 * F.signBit) :
    F.withSign (F.isNegative bits) (F.magnitude bits) = bits := by
  have hsplit := Nat.div_add_mod bits F.signBit
  have hsign : bits / F.signBit < 2 := Nat.div_lt_of_lt_mul (Nat.mul_comm _ _ ▸ h)
  rw [withSign, isNegative, magnitude]
  rcases Nat.le_one_iff_eq_zero_or_eq_one.mp (Nat.le_of_lt_succ hsign) with hzero | hone
  · rw [hzero] at hsplit ⊢
    simpa using hsplit
  · rw [hone] at hsplit ⊢
    simpa using hsplit

/-- A finite number whose value another format has becomes this value there. -/
theorem convert_of_value {target : Format} {bits : Nat} (hbits : F.isFinite bits)
    (hm : m < target.infinity) (hvalue : F.value (F.magnitude bits) = target.value m) :
    F.convert target bits = target.withSign (F.isNegative bits) m := by
  have hfinite : F.magnitude bits < F.infinity := by simpa [isFinite] using hbits
  have hnan : F.isNaN bits = false := by
    rw [isNaN, decide_eq_false_iff_not]
    omega
  have hinfinite : F.isInfinite bits = false := by
    rw [isInfinite, decide_eq_false_iff_not]
    omega
  obtain ⟨hden, hfraction⟩ := F.toFraction_spec bits
  simp only [convert, hnan, hinfinite, Bool.false_eq_true, ↓reduceIte]
  rw [round_eq hden hm (hfraction.trans hvalue)]

/-- Every number of single precision is one of double precision. -/
theorem exists_double {bits : Nat} (hbits : single.isFinite bits) :
    ∃ m, m < double.infinity ∧ single.value (single.magnitude bits) = double.value m := by
  have hfinite : single.magnitude bits < 255 * 2 ^ 23 := by
    have hinfinity : single.infinity = 255 * 2 ^ 23 := by decide
    rw [← hinfinity]
    simpa [isFinite] using hbits
  obtain ⟨hsplit, hdigits, _⟩ := single.significand_spec (single.magnitude bits)
  have hstep : single.step (single.magnitude bits) ≤ 254 := by
    have hfraction : single.fractionBits = 23 := rfl
    rw [hfraction] at hsplit
    omega
  have hmin : single.minExponent = -149 := by decide
  have hmin' : double.minExponent = -1074 := by decide
  have hplace : double.minExponent ≤
      single.minExponent + single.step (single.magnitude bits) := by
    rw [hmin, hmin']
    omega
  obtain ⟨m, hvalue, hbound⟩ :=
    exists_value (F := double) (Nat.lt_trans hdigits (by decide)) hplace
  refine ⟨m, ?_, hvalue.symm⟩
  calc m < _ := hbound
    _ ≤ 1181 * 2 ^ double.fractionBits := by
        rw [hmin, hmin']
        gcongr
        omega
    _ < double.infinity := by decide

/-- Widening a number to double precision keeps its sign, and narrowing it again gives it back. -/
theorem convert_single_double {bits : Nat} (hbits : single.isFinite bits) :
    double.isFinite (single.convert double bits) ∧
      double.convert single (single.convert double bits) =
        single.withSign (single.isNegative bits) (single.magnitude bits) := by
  obtain ⟨m, hm, hvalue⟩ := exists_double hbits
  have hsign : m < double.signBit := Nat.lt_trans hm (infinity_lt_signBit double)
  have hfinite : single.magnitude bits < single.infinity := by simpa [isFinite] using hbits
  have hmagnitude := magnitude_withSign (F := double) (single.isNegative bits) hsign
  rw [convert_of_value hbits hm hvalue]
  have hwide : double.isFinite (double.withSign (single.isNegative bits) m) := by
    rw [isFinite, hmagnitude]
    simpa using hm
  refine ⟨hwide, ?_⟩
  rw [convert_of_value hwide hfinite (by rw [hmagnitude, hvalue]), isNegative_withSign _ hsign]

/-! ### NaN -/

/-- The bits with the positive quiet NaN in place of every NaN. -/
def quiet (F : Format) (bits : Nat) : Nat := if F.isNaN bits then F.quietNaN else bits

theorem quiet_lt {bound bits : Nat} (hquiet : F.quietNaN < bound) (h : bits < bound) :
    F.quiet bits < bound := by
  rw [quiet]
  split
  · exact hquiet
  · exact h

/-- A NaN is not zero, and neither is the one that takes its place. -/
theorem isZero_quiet (h : F.isZero F.quietNaN = false)
    (bits : Nat) : F.isZero (F.quiet bits) = F.isZero bits := by
  rw [quiet]
  split
  · rename_i hnan
    rw [h, isZero, eq_comm, decide_eq_false_iff_not]
    rw [isNaN, decide_eq_true_eq] at hnan
    omega
  · rfl

theorem isNaN_withSign (negative : Bool) (hm : m < F.signBit) :
    F.isNaN (F.withSign negative m) = decide (F.infinity < m) := by
  rw [isNaN, magnitude_withSign negative hm]

/-- A number is finite, infinite or a NaN. -/
theorem eq_infinity {bits : Nat} (hnan : F.isNaN bits = false) (hfinite : F.isFinite bits = false) :
    F.magnitude bits = F.infinity := by
  rw [isNaN, decide_eq_false_iff_not] at hnan
  rw [isFinite, decide_eq_false_iff_not] at hfinite
  omega

theorem convert_of_isNaN {target : Format} {bits : Nat} (hnan : F.isNaN bits) :
    F.convert target bits = target.withSign (F.isNegative bits) target.quietNaN := by
  simp only [convert, hnan, ↓reduceIte]

theorem convert_of_infinity {target : Format} {bits : Nat}
    (hinfinity : F.magnitude bits = F.infinity) :
    F.convert target bits = target.withSign (F.isNegative bits) target.infinity := by
  have hnan : F.isNaN bits = false := by simp [isNaN, hinfinity]
  have hinfinite : F.isInfinite bits := by simp [isInfinite, hinfinity]
  simp only [convert, hnan, hinfinite, Bool.false_eq_true, ↓reduceIte]

/-- A zero of either sign stays a zero. -/
theorem isZero_convert {target : Format} {bits : Nat} (hinfinity : 0 < F.infinity)
    (hzero : F.isZero bits) : target.isZero (F.convert target bits) := by
  have hmagnitude : F.magnitude bits = 0 := by simpa [isZero] using hzero
  have hnan : F.isNaN bits = false := by simp [isNaN, hmagnitude]
  have hinfinite : F.isInfinite bits = false := by
    simpa [isInfinite, hmagnitude] using hinfinity.ne
  have hnum : (F.toFraction bits).1 = 0 := by simp [toFraction, scaled, hmagnitude]
  have hsign : 0 < target.signBit := Nat.zero_lt_of_lt target.infinity_lt_signBit
  simp [convert, hnan, hinfinite, round, hnum, isZero, magnitude_withSign _ hsign]

theorem withSign_lt (negative : Bool) (hm : m < F.signBit) :
    F.withSign negative m < 2 * F.signBit := by
  rw [withSign]
  split <;> omega

theorem round_le_infinity (F : Format) (num den : Nat) : F.round num den ≤ F.infinity := by
  rw [round]
  split
  · exact Nat.zero_le _
  · exact Nat.min_le_right _ _

theorem convert_lt {target : Format} (hquiet : target.quietNaN < target.signBit) (bits : Nat) :
    F.convert target bits < 2 * target.signBit := by
  have hinfinity := target.infinity_lt_signBit
  apply withSign_lt
  split
  · exact hquiet
  · split
    · exact hinfinity
    · exact Nat.lt_of_le_of_lt (round_le_infinity _ _ _) hinfinity

/-- Any number of single precision comes back from double precision, a NaN as the quiet one, and
only finite numbers are taken for finite on the way. -/
theorem convert_quiet {bits : Nat} (h : bits < 2 * single.signBit) :
    double.convert single (double.quiet (single.convert double bits)) = single.quiet bits ∧
      (double.isFinite (double.quiet (single.convert double bits)) →
        single.isFinite (single.quiet bits)) := by
  cases hnan : single.isNaN bits with
  | true =>
    have hquiet : double.quiet (single.convert double bits) = double.quietNaN := by
      rw [convert_of_isNaN hnan, quiet, isNaN_withSign _ (by decide)]
      rfl
    have hnarrow : double.convert single double.quietNaN = single.quietNaN := by decide
    have hinfinite : double.isFinite double.quietNaN = false := by decide
    rw [hquiet, quiet, hnan, hnarrow, hinfinite]
    exact ⟨rfl, fun hfalse => by cases hfalse⟩
  | false =>
    have hquiet : single.quiet bits = bits := by rw [quiet, hnan]; rfl
    cases hfinite : single.isFinite bits with
    | true =>
      obtain ⟨hwide, hnarrow⟩ := convert_single_double hfinite
      have hquiet' : double.quiet (single.convert double bits) = single.convert double bits := by
        have hnan' : double.isNaN (single.convert double bits) = false := by
          rw [isFinite, decide_eq_true_eq] at hwide
          rw [isNaN, decide_eq_false_iff_not]
          omega
        rw [quiet, hnan']
        rfl
      rw [hquiet', hnarrow, hquiet, withSign_magnitude h]
      exact ⟨rfl, fun _ => hfinite⟩
    | false =>
      have hinfinity := eq_infinity hnan hfinite
      have hsign : double.infinity < double.signBit := infinity_lt_signBit double
      have hquiet' : double.quiet (double.withSign (single.isNegative bits) double.infinity) =
          double.withSign (single.isNegative bits) double.infinity := by
        rw [quiet, isNaN_withSign _ hsign]
        simp
      have hmagnitude := magnitude_withSign (F := double) (single.isNegative bits) hsign
      rw [convert_of_infinity hinfinity, hquiet', hquiet, convert_of_infinity hmagnitude,
        isNegative_withSign _ hsign, ← hinfinity, withSign_magnitude h]
      refine ⟨rfl, fun hwide => ?_⟩
      rw [isFinite, hmagnitude] at hwide
      simp at hwide

end Format

end Protowire.Binary
