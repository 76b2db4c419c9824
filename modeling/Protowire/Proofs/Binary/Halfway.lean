import Protowire.Proofs.Binary.Round

/-!
Where rounding goes up. The values of magnitudes ascend, if the infinity counts as the number that
would come after the last finite one, so that every fraction stands between two neighbours and is
rounded to the nearer of them. From halfway between two magnitudes on, when the smaller one is odd,
a fraction is rounded to no less than the greater one (`Format.lt_round_iff`); in particular this is
where a format overflows.
-/

namespace Protowire.Binary

theorem roundDiv_eq {den : Nat} (num : Nat) (hden : 0 < den) :
    roundDiv num den =
      if (num : ℚ) / den < (num / den : Nat) + 1 / 2 then num / den
      else if ((num / den : Nat) + 1 / 2 : ℚ) < num / den then num / den + 1
      else num / den + num / den % 2 := by
  have hden' : (0 : ℚ) < den := by exact_mod_cast hden
  have hsplit : (num : ℚ) = den * (num / den : Nat) + (num % den : Nat) := by
    exact_mod_cast (Nat.div_add_mod num den).symm
  have hbelow : (num : ℚ) / den < (num / den : Nat) + 1 / 2 ↔ 2 * (num % den) < den := by
    rw [div_lt_iff₀ hden', hsplit, ← Nat.cast_lt (α := ℚ)]
    push_cast
    constructor <;> intro h <;> linarith
  have habove : ((num / den : Nat) + 1 / 2 : ℚ) < num / den ↔ den < 2 * (num % den) := by
    rw [lt_div_iff₀ hden', hsplit, ← Nat.cast_lt (α := ℚ)]
    push_cast
    constructor <;> intro h <;> linarith
  simp only [roundDiv, hbelow, habove]

namespace Format

variable {F : Format} {m n k digits num den : Nat}

/-! ### The order of values -/

/-- The value of a magnitude put together from its parts; the digits may carry. -/
theorem value_compose (hdigits : digits ≤ 2 ^ (F.fractionBits + 1))
    (hnormal : k = 0 ∨ 2 ^ F.fractionBits ≤ digits) :
    F.value (k * 2 ^ F.fractionBits + digits) = digits * (2 : ℚ) ^ (F.minExponent + k) := by
  rcases hdigits.lt_or_eq with hlt | rfl
  · obtain ⟨hstep, hsignificand⟩ := step_compose hlt hnormal
    rw [value, hstep, hsignificand]
  · have hcarry : k * 2 ^ F.fractionBits + 2 ^ (F.fractionBits + 1) =
        (k + 1) * 2 ^ F.fractionBits + 2 ^ F.fractionBits := by
      ring
    have hlt : 2 ^ F.fractionBits < 2 ^ (F.fractionBits + 1) :=
      Nat.pow_lt_pow_right (by decide) (by omega)
    obtain ⟨hstep, hsignificand⟩ := step_compose (k := k + 1) hlt (.inr le_rfl)
    rw [hcarry, value, hstep, hsignificand, Nat.cast_add_one, ← add_assoc,
      zpow_add_one₀ (by norm_num)]
    push_cast
    ring

/-- The next magnitude has one more in its last place. -/
theorem value_compose_succ (hdigits : digits < 2 ^ (F.fractionBits + 1))
    (hnormal : k = 0 ∨ 2 ^ F.fractionBits ≤ digits) :
    F.value (k * 2 ^ F.fractionBits + digits + 1) =
      (digits + 1) * (2 : ℚ) ^ (F.minExponent + k) := by
  have hnext := value_compose (F := F) hdigits (hnormal.imp_right Nat.le_succ_of_le)
  rwa [Nat.cast_succ, Nat.add_succ] at hnext

/-- Neighbours are one unit in the last place of the smaller one apart. -/
theorem value_succ (F : Format) (m : Nat) :
    F.value (m + 1) = F.value m + (2 : ℚ) ^ (F.minExponent + F.step m) := by
  obtain ⟨hsplit, hbound, hnormal⟩ := F.significand_spec m
  have hnext := value_compose_succ hbound hnormal
  rw [hsplit] at hnext
  rw [hnext, value]
  ring

theorem value_strictMono (F : Format) : StrictMono F.value :=
  strictMono_nat_of_lt_succ fun m => by
    rw [value_succ]
    exact lt_add_of_pos_right _ (by positivity)

/-- The number in the middle between a magnitude and the next one. -/
def halfway (F : Format) (m : Nat) : ℚ := (F.value m + F.value (m + 1)) / 2

theorem value_lt_halfway (F : Format) (m : Nat) : F.value m < F.halfway m := by
  have hlt := F.value_strictMono (Nat.lt_succ_self m)
  rw [halfway]
  linarith

theorem halfway_lt_value (F : Format) (m : Nat) : F.halfway m < F.value (m + 1) := by
  have hlt := F.value_strictMono (Nat.lt_succ_self m)
  rw [halfway]
  linarith

theorem halfway_compose (hdigits : digits < 2 ^ (F.fractionBits + 1))
    (hnormal : k = 0 ∨ 2 ^ F.fractionBits ≤ digits) :
    F.halfway (k * 2 ^ F.fractionBits + digits) =
      (digits + 1 / 2) * (2 : ℚ) ^ (F.minExponent + k) := by
  rw [halfway, value_compose hdigits.le hnormal, value_compose_succ hdigits hnormal]
  ring

/-- A magnitude is even if its digits are. -/
theorem compose_mod_two (hfraction : 0 < F.fractionBits) (k digits : Nat) :
    (k * 2 ^ F.fractionBits + digits) % 2 = digits % 2 := by
  obtain ⟨b, hb⟩ := Nat.exists_eq_succ_of_ne_zero hfraction.ne'
  rw [hb, Nat.pow_succ, ← Nat.mul_assoc, Nat.mul_add_mod_self_right]

/-! ### The nearer neighbour -/

theorem shiftLeft_div {den : Nat} (hden : 0 < den) (num : Nat) (e : Int) :
    ((num <<< (-e).toNat : Nat) : ℚ) / (den <<< e.toNat : Nat) = num / den / (2 : ℚ) ^ e := by
  have hden' : (den : ℚ) ≠ 0 := by exact_mod_cast hden.ne'
  rw [two_zpow, Nat.shiftLeft_eq, Nat.shiftLeft_eq]
  push_cast
  field_simp

/-- The last place is where the digits of the fraction have the length of a significand, but not
below the smallest one. -/
theorem exists_place (F : Format) (hnum : 0 < num) (hden : 0 < den) : ∃ k : Nat,
    max (floorLog2 num den - F.fractionBits) F.minExponent = F.minExponent + k ∧
      (num : ℚ) / den / (2 : ℚ) ^ (F.minExponent + k) < 2 ^ (F.fractionBits + 1) ∧
      (k = 0 ∨ 2 ^ F.fractionBits ≤ (num : ℚ) / den / (2 : ℚ) ^ (F.minExponent + k)) := by
  have hx : (0 : ℚ) < num / den := by positivity
  have hlow := Int.zpow_log_le_self (b := 2) (by decide) hx
  have hhigh := Int.lt_zpow_succ_log_self (b := 2) (by decide) ((num : ℚ) / den)
  rw [← floorLog2_eq hnum hden, Nat.cast_ofNat] at hlow hhigh
  refine ⟨(max (floorLog2 num den - F.fractionBits) F.minExponent - F.minExponent).toNat,
    by omega, ?_, ?_⟩
  · rw [div_lt_iff₀ (by positivity), ← zpow_natCast, ← zpow_add₀ (by norm_num)]
    exact hhigh.trans_le (zpow_le_zpow_right₀ (by norm_num) (by omega))
  · rw [or_iff_not_imp_left]
    intro hk
    rw [le_div_iff₀ (by positivity), ← zpow_natCast, ← zpow_add₀ (by norm_num)]
    exact (zpow_le_zpow_right₀ (by norm_num) (by omega)).trans hlow

/-- A fraction is rounded to the nearer one of the two magnitudes around it, from halfway between
them to the even one, and to the infinity if this is out of range. -/
theorem round_nearer (hfraction : 0 < F.fractionBits) (hnum : 0 < num) (hden : 0 < den) :
    ∃ low, F.value low ≤ num / den ∧ (num : ℚ) / den < F.value (low + 1) ∧
      F.round num den = min (if (num : ℚ) / den < F.halfway low then low
        else if F.halfway low < num / den then low + 1 else low + low % 2) F.infinity := by
  obtain ⟨k, hplace, hbound, hnormal⟩ := F.exists_place hnum hden
  have hden' : 0 < den <<< (F.minExponent + k).toNat := by
    rw [Nat.shiftLeft_eq]
    positivity
  have hunit : (0 : ℚ) < 2 ^ (F.minExponent + k) := by positivity
  have hround := roundDiv_eq (num <<< (-(F.minExponent + k)).toNat) hden'
  have hfloor := Nat.floor_div_eq_div (K := ℚ) (num <<< (-(F.minExponent + k)).toNat)
    (den <<< (F.minExponent + k).toNat)
  rw [shiftLeft_div hden] at hround hfloor
  rw [← hfloor] at hround
  generalize hdigits : ⌊(num : ℚ) / den / (2 : ℚ) ^ (F.minExponent + k)⌋₊ = digits at *
  have hlow : (digits : ℚ) ≤ num / den / (2 : ℚ) ^ (F.minExponent + k) :=
    hdigits ▸ Nat.floor_le (by positivity)
  have hhigh : (num : ℚ) / den / (2 : ℚ) ^ (F.minExponent + k) < digits + 1 :=
    hdigits ▸ Nat.lt_floor_add_one _
  have hlength : digits < 2 ^ (F.fractionBits + 1) := by
    exact_mod_cast hlow.trans_lt hbound
  have hlead : k = 0 ∨ 2 ^ F.fractionBits ≤ digits := by
    refine hnormal.imp_right fun hle => ?_
    exact Nat.lt_succ_iff.mp (by exact_mod_cast hle.trans_lt hhigh)
  refine ⟨k * 2 ^ F.fractionBits + digits, ?_, ?_, ?_⟩
  · rw [value_compose hlength.le hlead]
    exact (le_div_iff₀ hunit).mp hlow
  · rw [value_compose_succ hlength hlead]
    exact (div_lt_iff₀ hunit).mp hhigh
  · have hk : (F.minExponent + k - F.minExponent).toNat = k := by omega
    rw [round, if_neg hnum.ne', halfway_compose hlength hlead, compose_mod_two hfraction]
    simp only [hplace, hround, hk, div_lt_iff₀ hunit, lt_div_iff₀ hunit]
    rw [Nat.shiftLeft_eq]
    congr 1
    split
    · rfl
    · split <;> rw [Nat.add_assoc]

/-! ### Rounding up -/

/-- From an odd magnitude a fraction is rounded up exactly from halfway to the next one. -/
theorem lt_round_iff (hfraction : 0 < F.fractionBits) (num : Nat) (hden : 0 < den)
    (hodd : n % 2 = 1) (hn : n < F.infinity) :
    n < F.round num den ↔ F.halfway n ≤ num / den := by
  have hmono := F.value_strictMono
  obtain rfl | hnum := Nat.eq_zero_or_pos num
  · have hpos : 0 < F.halfway n := by
      rw [← F.value_zero]
      exact (hmono.monotone n.zero_le).trans_lt (F.value_lt_halfway n)
    rw [round, if_pos rfl, Nat.cast_zero, zero_div]
    exact iff_of_false n.not_lt_zero (not_le.mpr hpos)
  obtain ⟨low, hlow, hhigh, hround⟩ := round_nearer hfraction hnum hden
  rw [hround, lt_min_iff, and_iff_left hn]
  have hn' := F.value_lt_halfway n
  have hnext := F.halfway_lt_value n
  rcases Nat.lt_trichotomy low n with hlt | rfl | hgt
  · have hle : F.value (low + 1) ≤ F.value n := hmono.monotone hlt
    refine iff_of_false ?_ (not_le.mpr (hhigh.trans_le (hle.trans hn'.le)))
    split
    · omega
    · split <;> omega
  · rw [hodd]
    split
    · rename_i hbelow
      exact iff_of_false (lt_irrefl _) (not_le.mpr hbelow)
    · rename_i hnot
      exact iff_of_true (by split <;> omega) (not_lt.mp hnot)
  · have hle : F.value (n + 1) ≤ F.value low := hmono.monotone hgt
    refine iff_of_true ?_ (hnext.le.trans (hle.trans hlow))
    split
    · exact hgt
    · split <;> omega

end Format

end Protowire.Binary
