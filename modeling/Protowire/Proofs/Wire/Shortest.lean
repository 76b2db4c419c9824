import Protowire.Proofs.Wire.Written

/-!
Canonical forms. Of the forms of a number, a tag or a region only the shortest is written, and of
the numbers that a field of 32 bits or of one bit cuts to the same value only one. A scalar value
has just one canonical form, and this is what is written (`Scalar.CanonicalForm.eq_write`).
-/

namespace Protowire

/-- A form of `a` such that no other is shorter. -/
def Shortest {α : Type} (F : List UInt8 → α → Prop) (form : List UInt8) (a : α) : Prop :=
  F form a ∧ ∀ form', F form' a → form.length ≤ form'.length

theorem shortest_iff {α : Type} {F : List UInt8 → α → Prop} {a : α} {written form : List UInt8}
    (hwritten : F written a)
    (hother : ∀ form, F form a → form = written ∨ written.length < form.length) :
    Shortest F form a ↔ form = written := by
  constructor
  · rintro ⟨hform, hshortest⟩
    have hlength := hshortest written hwritten
    rcases hother form hform with heq | hlonger
    · exact heq
    · omega
  · rintro rfl
    refine ⟨hwritten, fun form' hform' => ?_⟩
    rcases hother form' hform' with rfl | hlonger
    · exact Nat.le_refl _
    · omega

/-! ### Numbers -/

namespace Varint

/-- Every other form is longer than the one that is written. -/
theorem Digits.eq_encode_or_longer {form : List UInt8} {n : Nat} (h : Digits form n) :
    form = encode n ∨ (encode n).length < form.length := by
  induction h with
  | @last b hb =>
    rw [encode, if_pos hb, UInt8.ofNat_toNat]
    exact .inl rfl
  | @more b bs n hb hrest ih =>
    have hbyte := b.toNat_lt
    rw [encode]
    split
    · have hpos := hrest.length_pos
      simp only [List.length_cons, List.length_nil]
      omega
    · have hlow : (b.toNat - 128 + 128 * n) % 128 + 128 = b.toNat := by omega
      have hhigh : (b.toNat - 128 + 128 * n) / 128 = n := by omega
      rw [hlow, hhigh, UInt8.ofNat_toNat]
      rcases ih with rfl | hlonger
      · exact .inl rfl
      · simp only [List.length_cons]
        omega

theorem shortest_form_iff {form : List UInt8} {n : Nat} (hn : n < 2 ^ 64) :
    Shortest Form form n ↔ form = encode n :=
  shortest_iff (form_encode hn) fun _ h => h.1.eq_encode_or_longer

end Varint

/-! ### Tags and regions -/

namespace Wire

theorem shortest_tagForm_iff {number : Nat} {wire : WireType} {form : List UInt8}
    (hmin : minFieldNumber ≤ number) (hmax : number ≤ maxFieldNumber) :
    Shortest TagForm form (number, wire) ↔ form = writeTag number wire := by
  refine shortest_iff (tagForm_writeTag wire hmin hmax) ?_
  rintro form ⟨word, hword, hlt, _, heq⟩
  have hcode := wire.code_lt
  have htag : tag number wire = word := by
    simp only [tag, maxFieldNumber, UInt32.size] at *
    omega
  rw [writeTag, htag]
  exact hword.1.eq_encode_or_longer

theorem shortest_delimitedForm_iff {form body : List UInt8} (hbody : body.length < 2 ^ 64) :
    Shortest DelimitedForm form body ↔ form = delimited body := by
  refine shortest_iff (delimitedForm_delimited hbody) ?_
  rintro form ⟨length, hlength, rfl⟩
  rcases hlength.1.eq_encode_or_longer with rfl | hlonger
  · exact .inl rfl
  · rw [delimited, List.length_append, List.length_append]
    omega

theorem eq_delimited_of_shortest {form body : List UInt8} (h : Shortest DelimitedForm form body) :
    form = delimited body := by
  have hbody : body.length < 2 ^ 64 := by
    obtain ⟨⟨length, hlength, _⟩, _⟩ := h
    exact hlength.2.2
  exact (shortest_delimitedForm_iff hbody).mp h

end Wire

/-! ### Words -/

/-- A number of 64 bits that is one of 32 bits, extended by its sign. -/
def SignExtended (n : Nat) : Prop := n < 2 ^ 31 ∨ 2 ^ 64 - 2 ^ 31 ≤ n

theorem signExtended_toInt64 (n : Int32) : SignExtended n.toInt64.toUInt64.toNat := by
  have hvalue : n.toInt64.toUInt64.toNat = (n.toBitVec.signExtend 64).toNat := rfl
  have hlt := n.toBitVec.isLt
  rw [SignExtended, hvalue, BitVec.toNat_signExtend, BitVec.msb_eq_decide, BitVec.toNat_setWidth]
  simp only [decide_eq_true_eq]
  split <;> omega

theorem toInt64_toInt32 {n : Nat} (hn : n < 2 ^ 64) (h : SignExtended n) :
    n.toInt32.toInt64.toUInt64.toNat = n := by
  have hvalue : n.toInt32.toInt64.toUInt64.toNat = ((BitVec.ofNat 32 n).signExtend 64).toNat := rfl
  rw [hvalue, BitVec.toNat_signExtend, BitVec.msb_eq_decide, BitVec.toNat_setWidth,
    BitVec.toNat_ofNat]
  simp only [decide_eq_true_eq]
  rw [SignExtended] at h
  split <;> omega

theorem toUInt64_toInt64 {n : Nat} (hn : n < 2 ^ 64) : n.toInt64.toUInt64.toNat = n :=
  Nat.mod_eq_of_lt hn

theorem toNat_toUInt32 {n : Nat} (hn : n < 2 ^ 32) : n.toUInt32.toNat = n := Nat.mod_eq_of_lt hn

theorem toNat_toUInt64 {n : Nat} (hn : n < 2 ^ 64) : n.toUInt64.toNat = n := Nat.mod_eq_of_lt hn

/-- Bytes are known by their value, lowest byte first, and by how many they are. -/
theorem littleEndian_littleEndianValue (bs : List UInt8) :
    littleEndian bs.length (littleEndianValue bs) = bs := by
  induction bs with
  | nil => rfl
  | cons b bs ih =>
    have hbyte := b.toNat_lt
    have hlow : UInt8.ofNat (b.toNat + 256 * littleEndianValue bs) = b := by
      rw [← UInt8.toNat_inj, UInt8.toNat_ofNat']
      omega
    have hhigh : (b.toNat + 256 * littleEndianValue bs) / 256 = littleEndianValue bs := by omega
    rw [List.length_cons, littleEndianValue, littleEndian, hlow, hhigh, ih]

theorem littleEndianValue_lt (bs : List UInt8) : littleEndianValue bs < 256 ^ bs.length := by
  induction bs with
  | nil => decide
  | cons b bs ih =>
    have hbyte := b.toNat_lt
    rw [littleEndianValue, List.length_cons, Nat.pow_succ]
    omega

/-! ### Scalar values -/

namespace Scalar

open Wire

/-- The canonical forms of one value on its own: the shortest, and of a number that the field would
cut off nothing more than its sign. -/
def CanonicalForm (s : Scalar) (form : List UInt8) (v : Value) : Prop :=
  match s with
  | int32 => ∃ n, Shortest Varint.Form form n ∧ SignExtended n ∧ v = .int32 n.toInt32
  | enum _ => ∃ n, Shortest Varint.Form form n ∧ SignExtended n ∧ v = .enum n.toInt32
  | int64 => ∃ n, Shortest Varint.Form form n ∧ v = .int64 n.toInt64
  | uint32 => ∃ n, Shortest Varint.Form form n ∧ n < 2 ^ 32 ∧ v = .uint32 n.toUInt32
  | uint64 => ∃ n, Shortest Varint.Form form n ∧ v = .uint64 n.toUInt64
  | sint32 =>
    ∃ n, Shortest Varint.Form form n ∧ n < 2 ^ 32 ∧ v = .int32 (ZigZag.decode32 n.toUInt32)
  | sint64 => ∃ n, Shortest Varint.Form form n ∧ v = .int64 (ZigZag.decode64 n.toUInt64)
  | bool => ∃ n, Shortest Varint.Form form n ∧ n ≤ 1 ∧ v = .bool (n != 0)
  | string => ∃ text, Shortest DelimitedForm form text.toUTF8.data.toList ∧ v = .string text
  | bytes => ∃ bs, Shortest DelimitedForm form bs ∧ v = .bytes bs
  | _ => s.Form form v

variable {s : Scalar} {form : List UInt8} {v : Value}

theorem CanonicalForm.toForm (h : s.CanonicalForm form v) : s.Form form v := by
  cases s with
  | int32 | enum | uint32 | sint32 | bool =>
    obtain ⟨n, hshortest, _, hv⟩ := h
    exact ⟨n, hshortest.1, hv⟩
  | int64 | uint64 | sint64 =>
    obtain ⟨n, hshortest, hv⟩ := h
    exact ⟨n, hshortest.1, hv⟩
  | string | bytes =>
    obtain ⟨x, hshortest, hv⟩ := h
    exact ⟨x, hshortest.1, hv⟩
  | _ => exact h

theorem CanonicalForm.eq_write (h : s.CanonicalForm form v) : form = s.write v := by
  have varint {n : Nat} (h : Shortest Varint.Form form n) : n < 2 ^ 64 ∧ form = Varint.encode n :=
    ⟨h.1.2.2, (Varint.shortest_form_iff h.1.2.2).mp h⟩
  -- a fixed width has one form for each of its numbers
  have fixed {width : Nat} (h : form.length = width) :
      littleEndianValue form < 256 ^ width ∧
        form = littleEndian width (littleEndianValue form) := by
    rw [← h, littleEndian_littleEndianValue]
    exact ⟨littleEndianValue_lt form, rfl⟩
  cases s with
  | int32 | enum =>
    obtain ⟨n, hshortest, hsign, rfl⟩ := h
    obtain ⟨hn, rfl⟩ := varint hshortest
    rw [write, writeInt32, toInt64_toInt32 hn hsign]
  | int64 =>
    obtain ⟨n, hshortest, rfl⟩ := h
    obtain ⟨hn, rfl⟩ := varint hshortest
    rw [write, writeInt64, toUInt64_toInt64 hn]
  | uint32 =>
    obtain ⟨n, hshortest, hn, rfl⟩ := h
    rw [write, writeUInt32, toNat_toUInt32 hn, (varint hshortest).2]
  | uint64 =>
    obtain ⟨n, hshortest, rfl⟩ := h
    obtain ⟨hn, rfl⟩ := varint hshortest
    rw [write, writeUInt64, toNat_toUInt64 hn]
  | sint32 =>
    obtain ⟨n, hshortest, hn, rfl⟩ := h
    rw [write, writeSInt32, ZigZag.encode32_decode32, toNat_toUInt32 hn, (varint hshortest).2]
  | sint64 =>
    obtain ⟨n, hshortest, rfl⟩ := h
    obtain ⟨hn, rfl⟩ := varint hshortest
    rw [write, writeSInt64, ZigZag.encode64_decode64, toNat_toUInt64 hn]
  | bool =>
    obtain ⟨n, hshortest, hn, rfl⟩ := h
    obtain ⟨_, rfl⟩ := varint hshortest
    rw [write, writeBool]
    obtain rfl | rfl : n = 0 ∨ n = 1 := by omega
    · rfl
    · rfl
  | string | bytes =>
    obtain ⟨x, hshortest, rfl⟩ := h
    exact eq_delimited_of_shortest hshortest
  | fixed32 | float =>
    obtain ⟨hlength, rfl⟩ := h
    obtain ⟨hlt, hform⟩ := fixed hlength
    rw [write, writeFixed32, toNat_toUInt32 hlt, ← hform]
  | sfixed32 =>
    obtain ⟨hlength, rfl⟩ := h
    obtain ⟨hlt, hform⟩ := fixed hlength
    have hword : (littleEndianValue form).toInt32.toUInt32.toNat = littleEndianValue form :=
      Nat.mod_eq_of_lt hlt
    rw [write, writeSFixed32, writeFixed32, hword, ← hform]
  | fixed64 | double =>
    obtain ⟨hlength, rfl⟩ := h
    obtain ⟨hlt, hform⟩ := fixed hlength
    rw [write, writeFixed64, toNat_toUInt64 hlt, ← hform]
  | sfixed64 =>
    obtain ⟨hlength, rfl⟩ := h
    obtain ⟨hlt, hform⟩ := fixed hlength
    rw [write, writeSFixed64, writeFixed64, toUInt64_toInt64 hlt, ← hform]

theorem canonicalForm_write (h : s.accepts v) (hlength : (s.write v).length < 2 ^ 64) :
    s.CanonicalForm (s.write v) v := by
  have word (n : UInt64) : Shortest Varint.Form (Varint.encode n.toNat) n.toNat :=
    (Varint.shortest_form_iff n.toNat_lt).mpr rfl
  have half (n : UInt32) : Shortest Varint.Form (Varint.encode n.toNat) n.toNat :=
    (Varint.shortest_form_iff (Nat.lt_trans n.toNat_lt (by decide))).mpr rfl
  have delimited {body : List UInt8} (h : (delimited body).length < 2 ^ 64) :
      Shortest DelimitedForm (Wire.delimited body) body :=
    (shortest_delimitedForm_iff (length_lt_of_delimited h)).mpr rfl
  have hform := form_write h hlength
  cases s <;> cases v <;> first | cases h; done | skip
  case int32.int32 n | enum.enum n =>
    exact ⟨_, word n.toInt64.toUInt64, signExtended_toInt64 n, by rw [toInt32_toInt64]⟩
  case int64.int64 n => exact ⟨_, word n.toUInt64, by rw [toInt64_toUInt64]⟩
  case uint32.uint32 n =>
    exact ⟨_, half n, n.toNat_lt, by rw [Nat.toUInt32, UInt32.ofNat_toNat]⟩
  case uint64.uint64 n => exact ⟨_, word n, by rw [Nat.toUInt64, UInt64.ofNat_toNat]⟩
  case sint32.int32 n =>
    refine ⟨_, half (ZigZag.encode32 n), (ZigZag.encode32 n).toNat_lt, ?_⟩
    rw [Nat.toUInt32, UInt32.ofNat_toNat, ZigZag.decode32_encode32]
  case sint64.int64 n =>
    refine ⟨_, word (ZigZag.encode64 n), ?_⟩
    rw [Nat.toUInt64, UInt64.ofNat_toNat, ZigZag.decode64_encode64]
  case bool.bool b =>
    have hb := b.toNat_lt
    refine ⟨b.toNat, (Varint.shortest_form_iff (by omega)).mpr rfl, by omega, ?_⟩
    cases b <;> rfl
  case string.string text => exact ⟨text, delimited hlength, rfl⟩
  case bytes.bytes bs => exact ⟨bs, delimited hlength, rfl⟩
  all_goals exact hform

/-- A run of values in canonical forms with nothing between them. -/
inductive CanonicalRun (s : Scalar) : List UInt8 → List Value → Prop
  | nil : CanonicalRun s [] []
  | cons {form rest : List UInt8} {v : Value} {vs : List Value} (head : s.CanonicalForm form v)
    (tail : CanonicalRun s rest vs) : CanonicalRun s (form ++ rest) (v :: vs)

theorem CanonicalRun.eq_write {region : List UInt8} {vs : List Value}
    (h : s.CanonicalRun region vs) :
    (∀ v ∈ vs, s.accepts v) ∧ region = vs.flatMap s.write := by
  induction h with
  | nil => exact ⟨by simp, rfl⟩
  | cons head tail ih =>
    obtain ⟨haccepts, rfl⟩ := ih
    rw [List.flatMap_cons, ← head.eq_write]
    exact ⟨List.forall_mem_cons.mpr ⟨head.toForm.accepts, haccepts⟩, rfl⟩

theorem canonicalRun_write {vs : List Value} (h : ∀ v ∈ vs, s.accepts v)
    (hlength : (vs.flatMap s.write).length < 2 ^ 64) :
    s.CanonicalRun (vs.flatMap s.write) vs := by
  induction vs with
  | nil => exact .nil
  | cons v vs ih =>
    obtain ⟨hv, hvs⟩ := List.forall_mem_cons.mp h
    rw [List.flatMap_cons, List.length_append] at hlength
    rw [List.flatMap_cons]
    exact .cons (canonicalForm_write hv (by omega)) (ih hvs (by omega))

end Scalar

end Protowire
