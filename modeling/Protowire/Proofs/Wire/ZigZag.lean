import Protowire.Proofs.Wire.Varint
import Protowire.Proofs.ZigZag

/-!
Signed numbers on the wire. Since zig-zag counts integers by their magnitude and a greater number
never has the shorter varint, a number near zero is short whatever its sign. A 32-bit number is
folded in 32 bits and read as one of 64, of which the upper half is empty.
-/

namespace Protowire

open Wire

namespace ZigZag

/-- Of two numbers the one nearer to zero comes first. -/
theorem encode32_lt_encode32 {n m : Int32} (h : n.toInt.natAbs < m.toInt.natAbs) :
    encode32 n < encode32 m := by
  have hrank := rank_lt_rank h
  rw [← toNat_encode32, ← toNat_encode32] at hrank
  exact UInt32.lt_iff_toNat_lt.mpr (Int.ofNat_lt.mp hrank)

theorem encode64_lt_encode64 {n m : Int64} (h : n.toInt.natAbs < m.toInt.natAbs) :
    encode64 n < encode64 m := by
  have hrank := rank_lt_rank h
  rw [← toNat_encode64, ← toNat_encode64] at hrank
  exact UInt64.lt_iff_toNat_lt.mpr (Int.ofNat_lt.mp hrank)

end ZigZag

namespace Wire

theorem length_writeSInt32_le {n m : Int32} (h : ZigZag.encode32 n < ZigZag.encode32 m) :
    (writeSInt32 n).length ≤ (writeSInt32 m).length :=
  Varint.length_encode_mono (Nat.le_of_lt (UInt32.lt_iff_toNat_lt.mp h))

theorem length_writeSInt64_le {n m : Int64} (h : ZigZag.encode64 n < ZigZag.encode64 m) :
    (writeSInt64 n).length ≤ (writeSInt64 m).length :=
  Varint.length_encode_mono (Nat.le_of_lt (UInt64.lt_iff_toNat_lt.mp h))

theorem readSInt32_writeSInt32 (n : Int32) (rest : List UInt8) :
    readSInt32 (writeSInt32 n ++ rest) = .ok n rest := by
  have hword := (ZigZag.encode32 n).toNat_lt
  have hform : Varint.Form (writeSInt32 n) (ZigZag.encode32 n).toNat :=
    Varint.form_encode (Nat.lt_trans hword (by decide))
  refine (reads_readVarint.map _).ok ⟨_, hform, ?_⟩ rest
  rw [Nat.toUInt32, UInt32.ofNat_toNat, ZigZag.decode32_encode32]

end Wire

namespace ZigZag

/-- At both widths zig-zag is a bijection between the signed words and the unsigned ones: it gives
2n for a number n from zero on and -2n - 1 for one below, and each of the two directions undoes the
other. A number nearer to zero than another one comes before it and is no longer when written. What
is written for a 32-bit number is read as this number, though by way of 64 bits. -/
theorem zigzag_by_magnitude :
    (∀ n : Int32,
      ((encode32 n).toNat : Int) = (if 0 ≤ n.toInt then 2 * n.toInt else -2 * n.toInt - 1) ∧
        decode32 (encode32 n) = n) ∧
    (∀ w : UInt32, encode32 (decode32 w) = w) ∧
    (∀ n : Int64,
      ((encode64 n).toNat : Int) = (if 0 ≤ n.toInt then 2 * n.toInt else -2 * n.toInt - 1) ∧
        decode64 (encode64 n) = n) ∧
    (∀ w : UInt64, encode64 (decode64 w) = w) ∧
    (∀ n m : Int32, n.toInt.natAbs < m.toInt.natAbs →
      encode32 n < encode32 m ∧ (writeSInt32 n).length ≤ (writeSInt32 m).length) ∧
    (∀ n m : Int64, n.toInt.natAbs < m.toInt.natAbs →
      encode64 n < encode64 m ∧ (writeSInt64 n).length ≤ (writeSInt64 m).length) ∧
    ∀ (n : Int32) (rest : List UInt8), readSInt32 (writeSInt32 n ++ rest) = .ok n rest := by
  refine ⟨fun n => ⟨toNat_encode32 n, decode32_encode32 n⟩, encode32_decode32,
    fun n => ⟨toNat_encode64 n, decode64_encode64 n⟩, encode64_decode64, fun n m h => ?_,
    fun n m h => ?_, readSInt32_writeSInt32⟩
  · have hlt := encode32_lt_encode32 h
    exact ⟨hlt, length_writeSInt32_le hlt⟩
  · have hlt := encode64_lt_encode64 h
    exact ⟨hlt, length_writeSInt64_le hlt⟩

/-- The lowest words, where the shift loses the sign: no number is longer. -/
theorem zigzag_at_lowest :
    (Int32.maxValue.toInt.natAbs < Int32.minValue.toInt.natAbs ∧
      (writeSInt32 Int32.maxValue).length ≤ (writeSInt32 Int32.minValue).length) ∧
    (Int64.maxValue.toInt.natAbs < Int64.minValue.toInt.natAbs ∧
      (writeSInt64 Int64.maxValue).length ≤ (writeSInt64 Int64.minValue).length) := by
  have h32 : Int32.maxValue.toInt.natAbs < Int32.minValue.toInt.natAbs := by decide
  have h64 : Int64.maxValue.toInt.natAbs < Int64.minValue.toInt.natAbs := by decide
  obtain ⟨-, -, -, -, hlength32, hlength64, -⟩ := zigzag_by_magnitude
  exact ⟨⟨h32, (hlength32 _ _ h32).2⟩, h64, (hlength64 _ _ h64).2⟩

end ZigZag

end Protowire
