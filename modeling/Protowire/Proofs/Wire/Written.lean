import Protowire.Proofs.Wire.Forms
import Protowire.Proofs.ZigZag

/-!
What is written can be read: every written form is among the forms of its value. Lengths are only
bounded by the 64 bits that a length has on the wire.
-/

namespace Protowire

/-! ### Numbers -/

namespace Varint

theorem digits_encode (n : Nat) : Digits (encode n) n := by
  fun_induction encode n with
  | case1 n hlt =>
    have hb : (UInt8.ofNat n).toNat = n := by
      rw [UInt8.toNat_ofNat']
      omega
    have hlast := Digits.last (b := UInt8.ofNat n) (by omega)
    rwa [hb] at hlast
  | case2 n hge ih =>
    have hb : (UInt8.ofNat (n % 128 + 128)).toNat = n % 128 + 128 := by
      rw [UInt8.toNat_ofNat']
      omega
    have hmore := Digits.more (b := UInt8.ofNat (n % 128 + 128)) (by omega) ih
    have hn : (UInt8.ofNat (n % 128 + 128)).toNat - 128 + 128 * (n / 128) = n := by
      rw [hb]
      omega
    rwa [hn] at hmore

theorem length_encode_le {more n : Nat} (h : n < 128 ^ (more + 1)) :
    (encode n).length ≤ more + 1 := by
  induction more generalizing n with
  | zero =>
    rw [encode, if_pos (by omega)]
    simp
  | succ more ih =>
    have hdiv : n / 128 < 128 ^ (more + 1) := by
      rw [Nat.pow_succ] at h
      exact Nat.div_lt_of_lt_mul (by omega)
    have hrest := ih hdiv
    rw [encode]
    split
    · simp
    · rw [List.length_cons]
      omega

theorem form_encode {n : Nat} (h : n < 2 ^ 64) : Form (encode n) n := by
  have hlength : (encode n).length ≤ 9 + 1 := length_encode_le (by omega)
  exact ⟨digits_encode n, hlength, h⟩

end Varint

theorem length_littleEndian (width n : Nat) : (littleEndian width n).length = width := by
  induction width generalizing n with
  | zero => rfl
  | succ width ih => rw [littleEndian, List.length_cons, ih]

theorem littleEndianValue_littleEndian {width n : Nat} (h : n < 256 ^ width) :
    littleEndianValue (littleEndian width n) = n := by
  induction width generalizing n with
  | zero =>
    rw [littleEndian, littleEndianValue]
    omega
  | succ width ih =>
    have hdiv : n / 256 < 256 ^ width := by
      rw [Nat.pow_succ] at h
      exact Nat.div_lt_of_lt_mul (by omega)
    rw [littleEndian, littleEndianValue, ih hdiv, UInt8.toNat_ofNat']
    omega

/-! ### Tags and regions -/

namespace Wire

theorem tagForm_writeTag {number : Nat} (wire : WireType) (hmin : minFieldNumber ≤ number)
    (hmax : number ≤ maxFieldNumber) : TagForm (writeTag number wire) (number, wire) := by
  have hcode := wire.code_lt
  have hword : tag number wire = 8 * number + wire.code := by
    simp only [tag, maxFieldNumber, UInt32.size] at *
    omega
  have hlt : 8 * number + wire.code < UInt32.size := by
    simp only [maxFieldNumber, UInt32.size] at *
    omega
  refine ⟨8 * number + wire.code, ?_, hlt, hmin, rfl⟩
  rw [writeTag, hword]
  refine Varint.form_encode ?_
  simp only [UInt32.size] at hlt
  omega

theorem delimitedForm_delimited {bs : List UInt8} (h : bs.length < 2 ^ 64) :
    DelimitedForm (delimited bs) bs :=
  ⟨Varint.encode bs.length, Varint.form_encode h, rfl⟩

theorem length_lt_of_delimited {bs : List UInt8} (h : (delimited bs).length < 2 ^ 64) :
    bs.length < 2 ^ 64 := by
  rw [delimited, List.length_append] at h
  omega

theorem length_lt_of_writeDelimited {number : Nat} {bs : List UInt8}
    (h : (writeDelimited number bs).length < 2 ^ 64) : bs.length < 2 ^ 64 := by
  rw [writeDelimited, List.length_append] at h
  exact length_lt_of_delimited (by omega)

end Wire

/-! ### Words -/

/-- A 32-bit number that was extended to 64 bits by its sign is the low half of them. -/
theorem toInt32_toInt64 (n : Int32) : n.toInt64.toUInt64.toNat.toInt32 = n := by
  apply Int32.toBitVec_inj.mp
  show BitVec.ofNat 32 (n.toBitVec.signExtend 64).toNat = n.toBitVec
  rw [BitVec.ofNat_toNat]
  ext i hi
  simp only [BitVec.getElem_setWidth, BitVec.getLsbD_signExtend, hi, ↓reduceIte,
    BitVec.getLsbD_eq_getElem hi, Bool.and_eq_right_iff_imp, decide_eq_true_eq]
  omega

theorem toInt32_toUInt32 (n : Int32) : n.toUInt32.toNat.toInt32 = n := by
  apply Int32.toBitVec_inj.mp
  show BitVec.ofNat 32 n.toBitVec.toNat = n.toBitVec
  rw [BitVec.ofNat_toNat, BitVec.setWidth_eq]

theorem toInt64_toUInt64 (n : Int64) : n.toUInt64.toNat.toInt64 = n := by
  apply Int64.toBitVec_inj.mp
  show BitVec.ofNat 64 n.toBitVec.toNat = n.toBitVec
  rw [BitVec.ofNat_toNat, BitVec.setWidth_eq]

/-! ### Scalar values -/

namespace Scalar

open Wire

/-- A value that fits is written in one of its forms. -/
theorem form_write {s : Scalar} {v : Value} (h : s.accepts v)
    (hlength : (s.write v).length < 2 ^ 64) : s.Form (s.write v) v := by
  -- varints of either width, then the two widths of what is written lowest byte first
  have word (n : UInt64) : Varint.Form (Varint.encode n.toNat) n.toNat :=
    Varint.form_encode n.toNat_lt
  have half (n : UInt32) : Varint.Form (Varint.encode n.toNat) n.toNat :=
    Varint.form_encode (Nat.lt_trans n.toNat_lt (by decide))
  have eight (n : UInt64) : (littleEndian 8 n.toNat).length = 8 ∧
      littleEndianValue (littleEndian 8 n.toNat) = n.toNat :=
    ⟨length_littleEndian 8 _, littleEndianValue_littleEndian n.toNat_lt⟩
  have four (n : UInt32) : (littleEndian 4 n.toNat).length = 4 ∧
      littleEndianValue (littleEndian 4 n.toNat) = n.toNat :=
    ⟨length_littleEndian 4 _, littleEndianValue_littleEndian n.toNat_lt⟩
  cases s <;> cases v <;> first | cases h; done | skip
  case int32.int32 n | enum.enum n => exact ⟨_, word n.toInt64.toUInt64, by rw [toInt32_toInt64]⟩
  case int64.int64 n => exact ⟨_, word n.toUInt64, by rw [toInt64_toUInt64]⟩
  case uint32.uint32 n => exact ⟨_, half n, by rw [Nat.toUInt32, UInt32.ofNat_toNat]⟩
  case uint64.uint64 n => exact ⟨_, word n, by rw [Nat.toUInt64, UInt64.ofNat_toNat]⟩
  case sint32.int32 n =>
    refine ⟨_, half (ZigZag.encode32 n), ?_⟩
    rw [Nat.toUInt32, UInt32.ofNat_toNat, ZigZag.decode32_encode32]
  case sint64.int64 n =>
    refine ⟨_, word (ZigZag.encode64 n), ?_⟩
    rw [Nat.toUInt64, UInt64.ofNat_toNat, ZigZag.decode64_encode64]
  case bool.bool b =>
    refine ⟨_, Varint.form_encode (Nat.lt_trans b.toNat_lt (by decide)), ?_⟩
    cases b <;> rfl
  case fixed32.uint32 n | float.float n =>
    refine ⟨(four n).1, ?_⟩
    rw [write, writeFixed32, (four n).2, Nat.toUInt32, UInt32.ofNat_toNat]
  case fixed64.uint64 n | double.double n =>
    refine ⟨(eight n).1, ?_⟩
    rw [write, writeFixed64, (eight n).2, Nat.toUInt64, UInt64.ofNat_toNat]
  case sfixed32.int32 n =>
    refine ⟨(four n.toUInt32).1, ?_⟩
    rw [write, writeSFixed32, writeFixed32, (four n.toUInt32).2, toInt32_toUInt32]
  case sfixed64.int64 n =>
    refine ⟨(eight n.toUInt64).1, ?_⟩
    rw [write, writeSFixed64, writeFixed64, (eight n.toUInt64).2, toInt64_toUInt64]
  case string.string text =>
    exact ⟨text, delimitedForm_delimited (length_lt_of_delimited hlength), rfl⟩
  case bytes.bytes bs =>
    exact ⟨bs, delimitedForm_delimited (length_lt_of_delimited hlength), rfl⟩

/-- No number takes more than ten bytes. -/
theorem length_write_le {s : Scalar} (hpackable : s.packable) (v : Value) :
    (s.write v).length ≤ 10 := by
  have word (n : UInt64) : (Varint.encode n.toNat).length ≤ 10 :=
    Varint.length_encode_le (Nat.lt_trans n.toNat_lt (by decide))
  have half (n : UInt32) : (Varint.encode n.toNat).length ≤ 10 :=
    Varint.length_encode_le (Nat.lt_trans n.toNat_lt (by decide))
  have bit (b : Bool) : (Varint.encode b.toNat).length ≤ 10 :=
    Varint.length_encode_le (Nat.lt_trans b.toNat_lt (by decide))
  have bytes {width : Nat} (n : Nat) (h : width ≤ 10) : (littleEndian width n).length ≤ 10 := by
    rwa [length_littleEndian]
  cases s <;> cases v <;> first
    | exact Nat.zero_le _
    | exact word _
    | exact half _
    | exact bit _
    | exact bytes _ (by decide)
    | cases hpackable

theorem runForm_write {s : Scalar} {vs : List Value} (h : ∀ v ∈ vs, s.accepts v)
    (hlength : (vs.flatMap s.write).length < 2 ^ 64) : s.RunForm (vs.flatMap s.write) vs := by
  induction vs with
  | nil => exact .nil
  | cons v vs ih =>
    obtain ⟨hv, hvs⟩ := List.forall_mem_cons.mp h
    rw [List.flatMap_cons, List.length_append] at hlength
    rw [List.flatMap_cons]
    exact .cons (form_write hv (by omega)) (ih hvs (by omega))

end Scalar

end Protowire
