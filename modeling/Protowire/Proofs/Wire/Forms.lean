import Mathlib
import Protowire.Wire.Scalar

/-!
The forms that readers accept, said without the readers. `Reader.Reads r F` means that `r` takes
exactly the forms in `F`: it succeeds just when the input starts with a form of some value, and then
takes that form and nothing behind it. Both directions at once, so that a round trip, an extension
of the input and a malformed byte are all questions about forms.
-/

namespace Protowire

namespace Reader

variable {ε ε' α β : Type} {F : List UInt8 → α → Prop}

def Reads (r : Reader ε α) (F : List UInt8 → α → Prop) : Prop :=
  ∀ bs a rest, r bs = .ok a rest ↔ ∃ form, F form a ∧ bs = form ++ rest

theorem Reads.ok {r : Reader ε α} (h : Reads r F) {form : List UInt8} {a : α} (hf : F form a)
    (rest : List UInt8) : r (form ++ rest) = .ok a rest :=
  (h _ _ _).mpr ⟨form, hf, rfl⟩

theorem Reads.form {r : Reader ε α} (h : Reads r F) {bs rest : List UInt8} {a : α}
    (hr : r bs = .ok a rest) : ∃ form, F form a ∧ bs = form ++ rest :=
  (h _ _ _).mp hr

/-- What stands behind a form does not matter. -/
theorem Reads.append {r : Reader ε α} (h : Reads r F) {bs rest : List UInt8} {a : α}
    (hr : r bs = .ok a rest) (more : List UInt8) : r (bs ++ more) = .ok a (rest ++ more) := by
  obtain ⟨form, hf, rfl⟩ := h.form hr
  rw [List.append_assoc]
  exact h.ok hf _

theorem Reads.map {r : Reader ε α} (h : Reads r F) (f : α → β) :
    Reads (f <$> r) (fun form b => ∃ a, F form a ∧ f a = b) := by
  intro bs b rest
  simp only [Functor.map, EStateM.map]
  constructor
  · intro heq
    split at heq
    · rename_i a _ hr
      cases heq
      obtain ⟨form, hf, rfl⟩ := h.form hr
      exact ⟨form, ⟨a, hf, rfl⟩, rfl⟩
    · cases heq
  · rintro ⟨form, ⟨a, hf, rfl⟩, rfl⟩
    rw [h.ok hf]

theorem Reads.mapError {r : Reader ε α} (h : Reads r F) (f : ε → ε') :
    Reads (Reader.mapError f r) F := by
  intro bs a rest
  rw [← h bs a rest, Reader.mapError]
  split <;> simp_all

theorem Reads.congr {G : List UInt8 → α → Prop} {r : Reader ε α} (h : Reads r F)
    (hFG : ∀ form a, F form a ↔ G form a) : Reads r G := by
  intro bs a rest
  simp only [h bs a rest, hFG]

theorem reads_take (n : Nat) : Reads (take n) (fun form text => form = text ∧ text.length = n) := by
  intro bs text rest
  constructor
  · intro h
    obtain ⟨rfl, hlen⟩ := take_ok h
    exact ⟨text, ⟨rfl, hlen⟩, rfl⟩
  · rintro ⟨_, ⟨rfl, rfl⟩, rfl⟩
    simp [take]

theorem reads_skip (n : Nat) : Reads (skip n) (fun form _ => form.length = n) :=
  ((reads_take n).map _).congr fun form _ =>
    ⟨fun ⟨_, ⟨h, hlen⟩, _⟩ => h ▸ hlen, fun hlen => ⟨form, ⟨rfl, hlen⟩, rfl⟩⟩

theorem reads_fixed (width : Nat) :
    Reads (fixed width) (fun form n => form.length = width ∧ littleEndianValue form = n) :=
  ((reads_take width).map _).congr fun form _ =>
    ⟨fun ⟨_, ⟨h, hlen⟩, hn⟩ => h ▸ ⟨hlen, hn⟩, fun ⟨hlen, hn⟩ => ⟨form, ⟨rfl, hlen⟩, hn⟩⟩

end Reader

/-! ### Numbers -/

namespace Varint

/-- Seven bits a byte, lowest first; every byte but the last has its top bit set. -/
inductive Digits : List UInt8 → Nat → Prop
  | last {b : UInt8} (h : b.toNat < 128) : Digits [b] b.toNat
  | more {b : UInt8} {bs : List UInt8} {n : Nat} (h : 128 ≤ b.toNat) (rest : Digits bs n) :
    Digits (b :: bs) (b.toNat - 128 + 128 * n)

/-- A number of 64 bits in at most ten bytes, in its shortest form or a longer one. -/
def Form (form : List UInt8) (n : Nat) : Prop := Digits form n ∧ form.length ≤ 10 ∧ n < 2 ^ 64

theorem Digits.length_pos {form : List UInt8} {n : Nat} (h : Digits form n) : 0 < form.length := by
  cases h <;> simp

theorem digits_of_readUpTo {more : Nat} {bs rest : List UInt8} {n : Nat}
    (h : readUpTo more bs = .ok n rest) :
    ∃ form, (Digits form n ∧ form.length ≤ more + 1 ∧ n < 2 * 128 ^ more) ∧ bs = form ++ rest := by
  induction more generalizing bs n with
  | zero =>
    cases bs with
    | nil => simp [readUpTo] at h
    | cons b bs =>
      simp only [readUpTo] at h
      split at h
      · rename_i hb
        cases h
        exact ⟨[b], ⟨.last (by omega), by simp, by omega⟩, rfl⟩
      · cases h
  | succ more ih =>
    cases bs with
    | nil => simp [readUpTo] at h
    | cons b bs =>
      simp only [readUpTo] at h
      have hb := b.toNat_lt
      rw [Nat.pow_succ]
      split at h
      · rename_i hlast
        cases h
        have hpos : 0 < 128 ^ more := Nat.pow_pos (by decide)
        exact ⟨[b], ⟨.last hlast, by simp, by omega⟩, rfl⟩
      · split at h
        · rename_i hmore _ _ _ hr
          cases h
          obtain ⟨form, ⟨hd, hlen, hlt⟩, rfl⟩ := ih hr
          exact ⟨b :: form, ⟨.more (by omega) hd, by simpa using hlen, by omega⟩, rfl⟩
        · cases h

theorem readUpTo_of_digits {more : Nat} {form : List UInt8} {n : Nat} (hd : Digits form n)
    (hlen : form.length ≤ more + 1) (hlt : n < 2 * 128 ^ more) (rest : List UInt8) :
    readUpTo more (form ++ rest) = .ok n rest := by
  induction more generalizing form n with
  | zero =>
    cases hd with
    | @last b h =>
      have hb : b.toNat ≤ 1 := Nat.le_of_lt_succ hlt
      simp [readUpTo, hb]
    | more h hd =>
      have hpos := hd.length_pos
      rw [List.length_cons] at hlen
      omega
  | succ more ih =>
    cases hd with
    | last h => simp [readUpTo, h]
    | @more b bs n h hd =>
      rw [List.length_cons] at hlen
      rw [Nat.pow_succ] at hlt
      have hr := ih hd (by omega) (by omega)
      simp only [List.cons_append, readUpTo, hr]
      rw [if_neg (by omega)]

/-- The tenth byte may be 0 or 1 only: this is what 64 bits leave for it. -/
theorem readUpTo_eq_ok_iff {more : Nat} {bs rest : List UInt8} {n : Nat} :
    readUpTo more bs = .ok n rest ↔
      ∃ form, (Digits form n ∧ form.length ≤ more + 1 ∧ n < 2 * 128 ^ more) ∧
        bs = form ++ rest := by
  constructor
  · exact digits_of_readUpTo
  · rintro ⟨form, ⟨hd, hlen, hlt⟩, rfl⟩
    exact readUpTo_of_digits hd hlen hlt rest

theorem reads_read : Reader.Reads read Form := by
  intro bs n rest
  exact readUpTo_eq_ok_iff

theorem Form.length_pos {form : List UInt8} {n : Nat} (h : Form form n) : 0 < form.length :=
  h.1.length_pos

end Varint

namespace Wire

open Reader

theorem reads_readVarint : Reads readVarint Varint.Form := Varint.reads_read.mapError _

/-- A tag: a number below 2^32 whose three low bits are the code of a wire type. -/
def TagForm (form : List UInt8) (t : Nat × WireType) : Prop :=
  ∃ word, Varint.Form form word ∧ word < UInt32.size ∧ minFieldNumber ≤ t.1 ∧
    word = 8 * t.1 + t.2.code

theorem ofCode?_eq_some_iff {code : Nat} {wire : WireType} :
    WireType.ofCode? code = some wire ↔ code = wire.code := by
  constructor
  · intro h
    unfold WireType.ofCode? at h
    split at h <;> cases h <;> rfl
  · rintro rfl
    exact WireType.ofCode?_code wire

theorem reads_readTag : Reads readTag TagForm := by
  intro bs t rest
  obtain ⟨number, wire⟩ := t
  constructor
  · intro h
    simp only [readTag] at h
    split at h
    · cases h
    · rename_i word _ hw
      obtain ⟨form, hform, rfl⟩ := reads_readVarint.form hw
      split at h
      · cases h
      · split at h
        · cases h
        · split at h
          · rename_i hlt hmin _ wire hwire
            cases h
            have hcode := ofCode?_eq_some_iff.mp hwire
            exact ⟨form, ⟨word, hform, by omega, by omega, by simp only; omega⟩, rfl⟩
          · cases h
  · rintro ⟨form, ⟨word, hform, hlt, hmin, rfl⟩, rfl⟩
    have hcode := wire.code_lt
    have hdiv : (8 * number + wire.code) / 8 = number := by omega
    have hmod : (8 * number + wire.code) % 8 = wire.code := by omega
    simp only at hlt hmin
    simp only [readTag, reads_readVarint.ok hform, hdiv, hmod, WireType.ofCode?_code]
    rw [if_neg (by omega), if_neg (by omega)]

/-- Bytes behind their length. -/
def DelimitedForm (form body : List UInt8) : Prop :=
  ∃ length, Varint.Form length body.length ∧ form = length ++ body

theorem readLength_eq_ok_iff {bs rest : List UInt8} {n : Nat} :
    readLength bs = .ok n rest ↔
      n ≤ rest.length ∧ ∃ form, Varint.Form form n ∧ bs = form ++ rest := by
  rw [← reads_readVarint bs n rest]
  simp only [readLength]
  split
  · simp_all
  · split
    · rename_i h _
      simp only [h, EStateM.Result.ok.injEq, false_iff, not_and, reduceCtorEq]
      rintro hle rfl rfl
      omega
    · rename_i h _
      simp only [h, EStateM.Result.ok.injEq]
      constructor
      · rintro ⟨rfl, rfl⟩
        exact ⟨by omega, rfl, rfl⟩
      · exact fun h => h.2

theorem reads_readBytes : Reads readBytes DelimitedForm := by
  intro bs body rest
  simp only [readBytes, bind, EStateM.bind]
  constructor
  · intro h
    split at h
    · rename_i n r hn
      obtain ⟨_, length, hlength, rfl⟩ := readLength_eq_ok_iff.mp hn
      obtain ⟨_, ⟨rfl, rfl⟩, rfl⟩ := ((reads_take n).mapError _).form h
      exact ⟨length ++ _, ⟨length, hlength, rfl⟩, by simp⟩
    · cases h
  · rintro ⟨_, ⟨length, hlength, rfl⟩, rfl⟩
    have hn : readLength (length ++ (body ++ rest)) = .ok body.length (body ++ rest) :=
      readLength_eq_ok_iff.mpr ⟨by simp, length, hlength, rfl⟩
    rw [List.append_assoc, hn]
    exact ((reads_take _).mapError _).ok ⟨rfl, rfl⟩ rest

theorem fromUTF8?_eq_some_iff {text : List UInt8} {s : String} :
    String.fromUTF8? ⟨text.toArray⟩ = some s ↔ text = s.toUTF8.data.toList := by
  simp only [String.fromUTF8?, String.toUTF8_eq_toByteArray]
  constructor
  · intro h
    split at h
    · cases h
      rfl
    · cases h
  · rintro rfl
    rw [dif_pos s.isValidUTF8]
    rfl

theorem reads_utf8 (n : Nat) :
    Reads (utf8 n) (fun form s => form = s.toUTF8.data.toList ∧ form.length = n) := by
  intro bs s rest
  constructor
  · intro h
    simp only [utf8] at h
    split at h
    · cases h
    · rename_i text r ht
      obtain ⟨rfl, hlen⟩ := take_ok ht
      split at h
      · rename_i hs
        cases h
        exact ⟨text, ⟨fromUTF8?_eq_some_iff.mp hs, hlen⟩, rfl⟩
      · cases h
  · rintro ⟨form, ⟨hform, hlen⟩, rfl⟩
    have ht : take n (form ++ rest) = .ok form rest := (reads_take n).ok ⟨rfl, hlen⟩ rest
    simp only [utf8, ht, fromUTF8?_eq_some_iff.mpr hform]

theorem reads_readString :
    Reads readString (fun form s => DelimitedForm form s.toUTF8.data.toList) := by
  intro bs s rest
  simp only [readString, bind, EStateM.bind]
  constructor
  · intro h
    split at h
    · rename_i n r hn
      obtain ⟨_, length, hlength, rfl⟩ := readLength_eq_ok_iff.mp hn
      obtain ⟨text, ⟨rfl, rfl⟩, rfl⟩ := ((reads_utf8 n).mapError _).form h
      exact ⟨length ++ _, ⟨length, hlength, rfl⟩, by simp⟩
    · cases h
  · rintro ⟨_, ⟨length, hlength, rfl⟩, rfl⟩
    have hn : readLength (length ++ (s.toUTF8.data.toList ++ rest)) = .ok _ _ :=
      readLength_eq_ok_iff.mpr ⟨by simp, length, hlength, rfl⟩
    rw [List.append_assoc, hn]
    exact ((reads_utf8 _).mapError _).ok ⟨rfl, rfl⟩ rest

end Wire

/-! ### Scalar values -/

namespace Scalar

open Reader Wire

/-- The forms of one value on its own. Of a number of 64 bits, a 32-bit field keeps the low half. -/
def Form (s : Scalar) (form : List UInt8) (v : Value) : Prop :=
  match s with
  | int32 => ∃ n, Varint.Form form n ∧ v = .int32 n.toInt32
  | int64 => ∃ n, Varint.Form form n ∧ v = .int64 n.toInt64
  | uint32 => ∃ n, Varint.Form form n ∧ v = .uint32 n.toUInt32
  | uint64 => ∃ n, Varint.Form form n ∧ v = .uint64 n.toUInt64
  | sint32 => ∃ n, Varint.Form form n ∧ v = .int32 (ZigZag.decode32 n.toUInt32)
  | sint64 => ∃ n, Varint.Form form n ∧ v = .int64 (ZigZag.decode64 n.toUInt64)
  | bool => ∃ n, Varint.Form form n ∧ v = .bool (n != 0)
  | enum _ => ∃ n, Varint.Form form n ∧ v = .enum n.toInt32
  | fixed32 => form.length = 4 ∧ v = .uint32 (littleEndianValue form).toUInt32
  | sfixed32 => form.length = 4 ∧ v = .int32 (littleEndianValue form).toInt32
  | float => form.length = 4 ∧ v = .float (littleEndianValue form).toUInt32
  | fixed64 => form.length = 8 ∧ v = .uint64 (littleEndianValue form).toUInt64
  | sfixed64 => form.length = 8 ∧ v = .int64 (littleEndianValue form).toInt64
  | double => form.length = 8 ∧ v = .double (littleEndianValue form).toUInt64
  | string => ∃ text, DelimitedForm form text.toUTF8.data.toList ∧ v = .string text
  | bytes => ∃ bs, DelimitedForm form bs ∧ v = .bytes bs

theorem reads_read (s : Scalar) : Reads s.read s.Form := by
  have varint {α : Type} (f : Nat → α) (g : α → Value) :
      Reads (g <$> f <$> readVarint) (fun form v => ∃ n, Varint.Form form n ∧ v = g (f n)) :=
    ((reads_readVarint.map f).map g).congr fun _ _ =>
      ⟨fun ⟨_, ⟨n, h, hf⟩, hg⟩ => ⟨n, h, by rw [hf, hg]⟩,
        fun ⟨n, h, hv⟩ => ⟨_, ⟨n, h, rfl⟩, hv.symm⟩⟩
  have fixed {α : Type} (width : Nat) (f : Nat → α) (g : α → Value) :
      Reads (g <$> f <$> Reader.mapError DecodeError.buffer (Reader.fixed width))
        (fun form v => form.length = width ∧ v = g (f (littleEndianValue form))) :=
    ((((reads_fixed width).mapError _).map f).map g).congr fun _ _ =>
      ⟨fun ⟨_, ⟨_, ⟨h, hn⟩, hf⟩, hg⟩ => ⟨h, by rw [hn, hf, hg]⟩,
        fun ⟨h, hv⟩ => ⟨_, ⟨_, ⟨h, rfl⟩, rfl⟩, hv.symm⟩⟩
  cases s with
  | int32 | int64 | uint32 | uint64 | sint32 | sint64 | bool | enum => exact varint _ _
  | fixed32 | sfixed32 | float | fixed64 | sfixed64 | double => exact fixed _ _ _
  | string => exact (reads_readString.map _).congr (by simp [Form, eq_comm])
  | bytes => exact (reads_readBytes.map _).congr (by simp [Form, eq_comm])

/-- What a reader of a scalar type gives fits a field of that type. -/
theorem Form.accepts {s : Scalar} {form : List UInt8} {v : Value} (h : s.Form form v) :
    s.accepts v := by
  cases s <;> simp only [Form] at h <;> obtain ⟨_, h⟩ := h
  case fixed32 | sfixed32 | float | fixed64 | sfixed64 | double => subst h; rfl
  all_goals
    obtain ⟨_, rfl⟩ := h
    rfl

/-- A run of values with nothing between them. -/
inductive RunForm (s : Scalar) : List UInt8 → List Value → Prop
  | nil : RunForm s [] []
  | cons {form rest : List UInt8} {v : Value} {vs : List Value} (head : s.Form form v)
    (tail : RunForm s rest vs) : RunForm s (form ++ rest) (v :: vs)

theorem Form.length_pos {s : Scalar} {form : List UInt8} {v : Value} (h : s.Form form v) :
    0 < form.length := by
  have hread := (reads_read s).ok h []
  simpa using s.advances_read.lt hread

theorem readAll_eq_ok_iff {s : Scalar} {bs : List UInt8} {vs : List Value} :
    s.readAll bs = .ok vs ↔ s.RunForm bs vs := by
  constructor
  · intro h
    fun_induction readAll s bs generalizing vs with
    | case1 bs hempty =>
      cases h
      rw [List.isEmpty_iff.mp hempty]
      exact .nil
    | case2 => cases h
    | case3 bs _ v rest hread ih =>
      obtain ⟨form, hform, rfl⟩ := (reads_read s).form hread
      cases hrest : s.readAll rest with
      | error e => rw [hrest] at h; cases h
      | ok vs' =>
        rw [hrest] at h
        cases h
        exact .cons hform (ih hrest)
  · intro h
    induction h with
    | nil => rw [readAll]; rfl
    | @cons form rest v vs head tail ih =>
      have hread := (reads_read s).ok head rest
      have hne : (form ++ rest).isEmpty = false := by
        have := head.length_pos
        cases form <;> simp_all
      rw [readAll, hne]
      simp only [Bool.false_eq_true, ↓reduceIte]
      split
      · rename_i hr
        rw [hread] at hr
        cases hr
      · rename_i hr
        rw [hread] at hr
        cases hr
        rw [ih]
        rfl

theorem RunForm.accepts {s : Scalar} {form : List UInt8} {vs : List Value}
    (h : s.RunForm form vs) : ∀ v ∈ vs, s.accepts v := by
  induction h with
  | nil => simp
  | cons head _ ih => exact List.forall_mem_cons.mpr ⟨head.accepts, ih⟩

end Scalar

end Protowire
