import Mathlib
import Protowire.ZigZag

/-!
Zig-zag loses nothing and counts integers in order of magnitude. The argument is about the bits and
the same at any width: folding puts the sign into the lowest bit and, if it is set, flips the
others; unfolding flips them back.
-/

namespace Protowire.ZigZag

/-- Negating the lowest bit spreads it over the whole word. -/
theorem getElem_neg_and_one {w : Nat} (x : BitVec (w + 1)) (i : Nat) (hi : i < w + 1) :
    (-(x &&& 1#(w + 1)))[i] = x[0] := by
  have hone : x &&& 1#(w + 1) = if x[0] then 1#(w + 1) else 0#(w + 1) := by
    ext j hj
    rw [BitVec.getElem_and, BitVec.getElem_one]
    by_cases hj0 : j = 0
    · subst hj0
      cases x[0] <;> simp
    · cases x[0] <;> simp [hj0]
  rw [hone]
  cases x[0] with
  | false => simp
  | true => simp [BitVec.neg_one_eq_allOnes]

theorem unfold_fold {w : Nat} (x : BitVec (w + 1)) :
    (((x <<< 1) ^^^ x.sshiftRight w) >>> 1) ^^^
      -(((x <<< 1) ^^^ x.sshiftRight w) &&& 1#(w + 1)) = x := by
  have hmsb : x.msb = x[w] := by
    rw [BitVec.msb_eq_getLsbD_last, BitVec.getLsbD_eq_getElem (by omega)]
    rfl
  ext i hi
  rw [BitVec.getElem_xor, getElem_neg_and_one]
  simp only [BitVec.getElem_ushiftRight, BitVec.getLsbD_xor, BitVec.getLsbD_shiftLeft,
    BitVec.getLsbD_sshiftRight, BitVec.getElem_xor, BitVec.getElem_shiftLeft,
    BitVec.getElem_sshiftRight, hmsb]
  -- the top bit was shifted out, so there the spread sign alone has to bring it back
  by_cases hlast : i = w
  · subst hlast
    simp
  · have hlt : 1 + i < w + 1 := by omega
    have hge : ¬ w + (1 + i) < w + 1 := by omega
    have hle : ¬ w < 1 + i := by omega
    simp [hlt, hge, hle, BitVec.getLsbD_eq_getElem hi]

/-- What is undone on the one side is undone on the other, since a word is one of finitely many. -/
theorem fold_unfold {w : Nat} (y : BitVec (w + 1)) :
    (((y >>> 1) ^^^ -(y &&& 1#(w + 1))) <<< 1) ^^^
      ((y >>> 1) ^^^ -(y &&& 1#(w + 1))).sshiftRight w = y := by
  have hinjective : Function.Injective fun x : BitVec (w + 1) => (x <<< 1) ^^^ x.sshiftRight w := by
    intro x x' h
    simp only at h
    rw [← unfold_fold x, h, unfold_fold]
  obtain ⟨x, rfl⟩ := Finite.surjective_of_injective hinjective y
  simp only [unfold_fold]

/-! ### Magnitude -/

/-- The place of an integer in the order 0, -1, 1, -2, … -/
def rank (n : Int) : Int := if 0 ≤ n then 2 * n else -2 * n - 1

theorem rank_lt_rank {n m : Int} (h : n.natAbs < m.natAbs) : rank n < rank m := by
  simp only [rank]
  omega

/-- Shifted by all but one place, a word is its sign all over. -/
theorem sshiftRight_last {w : Nat} (x : BitVec (w + 1)) :
    x.sshiftRight w = if x.msb then BitVec.allOnes (w + 1) else 0#(w + 1) := by
  ext i hi
  have hbit : (x.sshiftRight w)[i] = x.msb := by
    rw [BitVec.getElem_sshiftRight]
    split
    · rename_i hlast
      obtain rfl : i = 0 := by omega
      rw [BitVec.msb_eq_getLsbD_last, BitVec.getLsbD_eq_getElem (by omega)]
      rfl
    · rfl
  rw [hbit]
  cases x.msb with
  | false => simp
  | true => simp

theorem toNat_fold {w : Nat} (x : BitVec (w + 1)) :
    (((x <<< 1) ^^^ x.sshiftRight w).toNat : Int) = rank x.toInt := by
  have hlt := x.isLt
  have hshift : (x <<< 1).toNat = 2 * x.toNat % 2 ^ (w + 1) := by
    rw [BitVec.toNat_shiftLeft, Nat.shiftLeft_eq, Nat.pow_one, Nat.mul_comm]
  rw [rank, sshiftRight_last]
  cases hx : x.msb with
  | false =>
    have hsmall := BitVec.msb_eq_false_iff_two_mul_lt.mp hx
    have hint : x.toInt = x.toNat := BitVec.toInt_eq_toNat_of_msb hx
    rw [if_neg Bool.false_ne_true, BitVec.xor_zero, hshift, hint, if_pos (Int.natCast_nonneg _),
      Nat.mod_eq_of_lt hsmall]
    omega
  | true =>
    -- the sign is shifted out, and what is left is subtracted from the greatest word
    have hlarge := BitVec.msb_eq_true_iff_two_mul_ge.mp hx
    have hint : x.toInt = x.toNat - (2 ^ (w + 1) : Nat) := by
      rw [BitVec.toInt_eq_msb_cond, if_pos hx]
    rw [if_pos rfl, BitVec.xor_allOnes, BitVec.toNat_not, hshift, hint, if_neg (by omega),
      Nat.mod_eq_sub_mod hlarge, Nat.mod_eq_of_lt (by omega)]
    omega

/-! ### Words -/

theorem toNat_encode32 (n : Int32) : ((encode32 n).toNat : Int) = rank n.toInt :=
  toNat_fold n.toBitVec

theorem toNat_encode64 (n : Int64) : ((encode64 n).toNat : Int) = rank n.toInt :=
  toNat_fold n.toBitVec

theorem decode32_encode32 (n : Int32) : decode32 (encode32 n) = n := by
  apply Int32.toBitVec_inj.mp
  exact unfold_fold n.toBitVec

theorem decode64_encode64 (n : Int64) : decode64 (encode64 n) = n := by
  apply Int64.toBitVec_inj.mp
  exact unfold_fold n.toBitVec

theorem encode32_decode32 (w : UInt32) : encode32 (decode32 w) = w := by
  apply UInt32.toBitVec_inj.mp
  exact fold_unfold w.toBitVec

theorem encode64_decode64 (w : UInt64) : encode64 (decode64 w) = w := by
  apply UInt64.toBitVec_inj.mp
  exact fold_unfold w.toBitVec

end Protowire.ZigZag
