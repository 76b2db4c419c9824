import Protowire.Proofs.Wire.Shortest
import Protowire.Window

/-!
Numbers of at most 64 bits, byte by byte. Where a number ends is told by the top bits alone, and
this settles all that a reader does with the bytes in front of it (`readUpTo_cases`): it gives the
sum of the sevens up to the end, or there are too few bytes, or the last byte that may belong to the
number holds more than the bit that is left for it.
-/

namespace Protowire

namespace Varint

/-- The first `k` bytes are there and have their top bits set. -/
def GoesOn (bs : List UInt8) (k : Nat) : Prop := ∀ i < k, ∃ b, bs[i]? = some b ∧ 128 ≤ b.toNat

/-- The byte at position `k` is the first one with a clear top bit. -/
def EndsAt (bs : List UInt8) (k : Nat) : Prop :=
  GoesOn bs k ∧ ∃ b, bs[k]? = some b ∧ b.toNat < 128

/-- The number that the low seven bits of the first `k` bytes make, lowest first. -/
def sevens (bs : List UInt8) (k : Nat) : Nat :=
  ∑ i ∈ Finset.range k, (bs.getD i 0).toNat % 128 * 2 ^ (7 * i)

variable {bs : List UInt8} {b : UInt8} {k n more : Nat}

/-! ### Byte by byte -/

@[simp] theorem goesOn_zero (bs : List UInt8) : GoesOn bs 0 := nofun

theorem goesOn_cons_succ : GoesOn (b :: bs) (k + 1) ↔ 128 ≤ b.toNat ∧ GoesOn bs k := by
  constructor
  · intro h
    exact ⟨by simpa using h 0 (Nat.zero_lt_succ k), fun i hi => h (i + 1) (Nat.succ_lt_succ hi)⟩
  · rintro ⟨hb, hbs⟩ i hi
    cases i with
    | zero => exact ⟨b, rfl, hb⟩
    | succ i => exact hbs i (Nat.lt_of_succ_lt_succ hi)

theorem endsAt_cons_zero : EndsAt (b :: bs) 0 ↔ b.toNat < 128 := by
  simp [EndsAt]

theorem endsAt_cons_succ : EndsAt (b :: bs) (k + 1) ↔ 128 ≤ b.toNat ∧ EndsAt bs k := by
  rw [EndsAt, EndsAt, goesOn_cons_succ, List.getElem?_cons_succ, and_assoc]

theorem sevens_cons_succ (b : UInt8) (bs : List UInt8) (k : Nat) :
    sevens (b :: bs) (k + 1) = b.toNat % 128 + 128 * sevens bs k := by
  simp only [sevens]
  rw [Finset.sum_range_succ', Finset.mul_sum, Nat.add_comm]
  congr 1
  · simp
  · refine Finset.sum_congr rfl fun i _ => ?_
    rw [List.getD_cons_succ, Nat.mul_succ, Nat.pow_add]
    ring

theorem sevens_cons_one (b : UInt8) (bs : List UInt8) : sevens (b :: bs) 1 = b.toNat % 128 := by
  simp [sevens]

theorem EndsAt.lt_length (h : EndsAt bs k) : k < bs.length := by
  obtain ⟨_, b, hb, _⟩ := h
  exact List.getElem?_eq_some_iff.mp hb |>.1

/-- Bytes that end a number at their last position are digits of it. -/
theorem EndsAt.digits (h : EndsAt bs k) : Digits (bs.take (k + 1)) (sevens bs (k + 1)) := by
  induction k generalizing bs with
  | zero =>
    cases bs with
    | nil => cases h.lt_length
    | cons b bs =>
      have hb := endsAt_cons_zero.mp h
      rw [sevens_cons_one, Nat.mod_eq_of_lt hb]
      exact .last hb
  | succ k ih =>
    cases bs with
    | nil => cases h.lt_length
    | cons b bs =>
      obtain ⟨hb, hrest⟩ := endsAt_cons_succ.mp h
      have hbyte := b.toNat_lt
      have hvalue : b.toNat % 128 = b.toNat - 128 := by omega
      rw [sevens_cons_succ, hvalue]
      exact .more hb (ih hrest)

/-! ### What a reader does -/

/-- The number ends in time, and its last byte fits if it is the last that may come. -/
def Fits (bs : List UInt8) (more k : Nat) : Prop :=
  k ≤ more ∧ EndsAt bs k ∧ (k = more → (bs.getD more 0).toNat ≤ 1)

/-- The last byte that may come is there and holds too much. -/
def Overflows (bs : List UInt8) (more : Nat) : Prop :=
  GoesOn bs more ∧ ∃ b, bs[more]? = some b ∧ 1 < b.toNat

/-- The bits of a number that fits: seven for each byte but the last that may come, and one more. -/
theorem Fits.sevens_lt (h : Fits bs more k) : sevens bs (k + 1) < 2 * 128 ^ more := by
  obtain ⟨hk, hends, hlast⟩ := h
  induction more generalizing bs k with
  | zero =>
    obtain rfl : k = 0 := by omega
    cases bs with
    | nil => cases hends.lt_length
    | cons b bs =>
      have hb : b.toNat ≤ 1 := hlast rfl
      rw [sevens_cons_one]
      omega
  | succ more ih =>
    cases bs with
    | nil => cases hends.lt_length
    | cons b bs =>
      rw [Nat.pow_succ]
      cases k with
      | zero =>
        have hpos : 0 < 128 ^ more := Nat.pow_pos (by decide)
        rw [sevens_cons_one]
        omega
      | succ k =>
        have hrest := ih (Nat.le_of_succ_le_succ hk) (endsAt_cons_succ.mp hends).2
          (fun heq => by simpa using hlast (congrArg Nat.succ heq))
        rw [sevens_cons_succ]
        omega

theorem readUpTo_of_fits (h : Fits bs more k) :
    readUpTo more bs = .ok (sevens bs (k + 1)) (bs.drop (k + 1)) := by
  have hlength : (bs.take (k + 1)).length ≤ more + 1 := by
    have hk := h.1
    rw [List.length_take]
    omega
  exact readUpTo_eq_ok_iff.mpr ⟨bs.take (k + 1), ⟨h.2.1.digits, hlength, h.sevens_lt⟩,
    (List.take_append_drop _ _).symm⟩

theorem readUpTo_of_overflows (h : Overflows bs more) :
    readUpTo more bs = .error .varintOverflow (bs.drop (more + 1)) := by
  obtain ⟨hgoes, hlast⟩ := h
  induction more generalizing bs with
  | zero =>
    cases bs with
    | nil => simp at hlast
    | cons b bs =>
      have hb : 1 < b.toNat := by simpa using hlast
      rw [readUpTo, if_neg (by omega)]
      rfl
  | succ more ih =>
    cases bs with
    | nil => simp at hlast
    | cons b bs =>
      obtain ⟨hb, hrest⟩ := goesOn_cons_succ.mp hgoes
      rw [readUpTo, if_neg (by omega), ih hrest (by simpa using hlast)]
      rfl

theorem readUpTo_of_short (hlength : bs.length ≤ more) (hgoes : GoesOn bs bs.length) :
    readUpTo more bs = .error .endOfBuffer [] := by
  induction bs generalizing more with
  | nil => rw [readUpTo.eq_def]
  | cons b bs ih =>
    obtain ⟨more, rfl⟩ := Nat.exists_eq_add_of_lt (Nat.lt_of_lt_of_le (Nat.succ_pos _) hlength)
    rw [List.length_cons] at hlength
    obtain ⟨hb, hrest⟩ := goesOn_cons_succ.mp hgoes
    rw [Nat.zero_add, readUpTo, if_neg (by omega), ih (by omega) hrest]

/-- A number ends in time, or there are too few bytes for it, or its last byte holds too much. -/
theorem readUpTo_cases (bs : List UInt8) (more : Nat) :
    (∃ k, Fits bs more k) ∨ Overflows bs more ∨ bs.length ≤ more ∧ GoesOn bs bs.length := by
  induction more generalizing bs with
  | zero =>
    cases bs with
    | nil => exact .inr (.inr ⟨Nat.le_refl _, goesOn_zero _⟩)
    | cons b bs =>
      by_cases hb : b.toNat ≤ 1
      · exact .inl ⟨0, Nat.le_refl 0, endsAt_cons_zero.mpr (by omega), fun _ => hb⟩
      · exact .inr (.inl ⟨goesOn_zero _, b, rfl, by omega⟩)
  | succ more ih =>
    cases bs with
    | nil => exact .inr (.inr ⟨Nat.zero_le _, goesOn_zero _⟩)
    | cons b bs =>
      by_cases hb : b.toNat < 128
      · exact .inl ⟨0, Nat.zero_le _, endsAt_cons_zero.mpr hb, nofun⟩
      · have hb' : 128 ≤ b.toNat := by omega
        rcases ih bs with ⟨k, hk, hends, hlast⟩ | ⟨hgoes, hlast⟩ | ⟨hlength, hgoes⟩
        · refine .inl ⟨k + 1, Nat.succ_le_succ hk, endsAt_cons_succ.mpr ⟨hb', hends⟩, fun heq => ?_⟩
          rw [List.getD_cons_succ]
          exact hlast (Nat.succ.inj heq)
        · exact .inr (.inl ⟨goesOn_cons_succ.mpr ⟨hb', hgoes⟩, by simpa using hlast⟩)
        · exact .inr (.inr ⟨Nat.succ_le_succ hlength, goesOn_cons_succ.mpr ⟨hb', hgoes⟩⟩)

/-! ### Lengths -/

theorem log2_div_128 (h : 128 ≤ n) : n.log2 = (n / 128).log2 + 7 := by
  have hdiv : n / 128 ≠ 0 := by omega
  obtain ⟨hlow, hhigh⟩ := (Nat.log2_eq_iff hdiv).mp rfl
  rw [Nat.log2_eq_iff (by omega)]
  rw [Nat.pow_succ] at hhigh
  constructor
  · rw [Nat.pow_add]
    omega
  · rw [Nat.pow_succ, Nat.pow_add]
    omega

/-- The number of bytes is known from the number of bits. -/
theorem length_encode (n : Nat) : (encode n).length = size n := by
  fun_induction encode n with
  | case1 n hlt =>
    have hlog : n.log2 < 7 := by
      by_cases hn : n = 0
      · rw [hn]
        decide
      · exact (Nat.log2_lt hn).mpr hlt
    rw [size, Nat.div_eq_of_lt hlog]
    rfl
  | case2 n hge ih =>
    rw [List.length_cons, ih, size, size, log2_div_128 (n := n) (by omega)]
    omega

/-- A greater number never has the shorter form. -/
theorem length_encode_mono {m : Nat} (h : n ≤ m) : (encode n).length ≤ (encode m).length := by
  fun_induction encode n generalizing m with
  | case1 n hlt => exact (digits_encode m).length_pos
  | case2 n hge ih =>
    rw [encode.eq_def m, if_neg (by omega), List.length_cons, List.length_cons]
    exact Nat.succ_le_succ (ih (Nat.div_le_div_right h))

/-- No form is shorter than the one that is written, and no other one is as short. -/
theorem Digits.size_le {form : List UInt8} (h : Digits form n) :
    size n ≤ form.length ∧ (size n = form.length ↔ form = encode n) := by
  rw [← length_encode]
  rcases h.eq_encode_or_longer with rfl | hlonger
  · exact ⟨Nat.le_refl _, fun _ => rfl, fun _ => rfl⟩
  · refine ⟨hlonger.le, fun heq => by omega, ?_⟩
    rintro rfl
    rfl

/-! ### In a window -/

end Varint

namespace Window

variable {ε α : Type} {w : Window} {r : Reader ε α} {j : Nat}

theorem pos_keepLast (hj : j ≤ w.size) : (w.keepLast (w.size - j)).pos = w.pos + j := by
  have := w.pos_le_stop
  simp only [keepLast, size] at *
  omega

theorem unread_keepLast (hj : j ≤ w.size) :
    (w.keepLast (w.size - j)).unread = w.unread.drop j := by
  have hsize : (w.keepLast (w.size - j)).size = w.size - j := by
    simp only [keepLast, size] at *
    omega
  rw [unread, hsize, pos_keepLast hj, unread, List.drop_take, List.drop_drop]
  rfl

/-- A reader that takes `j` bytes moves the position by so many. -/
theorem run_of_ok {a : α} (hr : r w.unread = .ok a (w.unread.drop j)) (hj : j ≤ w.unread.length) :
    (w.run r).1 = .ok a ∧ (w.run r).2.pos = w.pos + j ∧ (w.run r).2.unread = w.unread.drop j := by
  rw [length_unread] at hj
  have hleft : (r.left w.unread).length = w.size - j := by
    rw [Reader.left, hr, List.length_drop, length_unread]
  rw [run, hleft]
  exact ⟨by rw [Reader.value?, hr], pos_keepLast hj, unread_keepLast hj⟩

theorem run_of_error {e : ε} {rest : List UInt8} (hr : r w.unread = .error e rest) :
    (w.run r).1 = .error e := by
  rw [run, Reader.value?, hr]

end Window

namespace Varint

variable {w : Window}

theorem run_read_of_fits (h : Fits w.unread 9 k) :
    (w.run read).1 = .ok (sevens w.unread (k + 1)) ∧ (w.run read).2.pos = w.pos + (k + 1) ∧
      (w.run read).2.unread = w.unread.drop (k + 1) :=
  Window.run_of_ok (readUpTo_of_fits h) h.2.1.lt_length

theorem run_read_of_overflows (h : Overflows w.unread 9) :
    (w.run read).1 = .error .varintOverflow :=
  Window.run_of_error (readUpTo_of_overflows h)

/-- Of the three outcomes there is one for every window. -/
theorem run_read_cases (w : Window) :
    (∃ k, Fits w.unread 9 k ∧ (w.run read).1 = .ok (sevens w.unread (k + 1))) ∨
      (Overflows w.unread 9 ∧ (w.run read).1 = .error .varintOverflow) ∨
      (w.run read).1 = .error .endOfBuffer := by
  rcases readUpTo_cases w.unread 9 with ⟨k, hfits⟩ | hover | ⟨hlength, hgoes⟩
  · exact .inl ⟨k, hfits, (run_read_of_fits hfits).1⟩
  · exact .inr (.inl ⟨hover, run_read_of_overflows hover⟩)
  · exact .inr (.inr (Window.run_of_error (readUpTo_of_short hlength hgoes)))

theorem run_read_eq_ok_iff :
    (w.run read).1 = .ok n ↔ ∃ k, Fits w.unread 9 k ∧ n = sevens w.unread (k + 1) := by
  constructor
  · intro hn
    obtain ⟨k, hfits, hvalue⟩ | ⟨_, herror⟩ | herror := run_read_cases w
    · rw [hvalue] at hn
      exact ⟨k, hfits, (Except.ok.inj hn).symm⟩
    · rw [herror] at hn
      cases hn
    · rw [herror] at hn
      cases hn
  · rintro ⟨k, hfits, rfl⟩
    exact (run_read_of_fits hfits).1

theorem run_read_eq_varintOverflow_iff :
    (w.run read).1 = .error .varintOverflow ↔ Overflows w.unread 9 := by
  refine ⟨fun herror => ?_, run_read_of_overflows⟩
  obtain ⟨k, _, hvalue⟩ | ⟨hover, _⟩ | hshort := run_read_cases w
  · rw [hvalue] at herror
    cases herror
  · exact hover
  · rw [hshort] at herror
    cases herror

theorem run_read_eq_endOfBuffer_iff :
    (w.run read).1 = .error .endOfBuffer ↔
      ¬(∃ k, Fits w.unread 9 k) ∧ ¬Overflows w.unread 9 := by
  constructor
  · intro hshort
    constructor
    · rintro ⟨k, hfits⟩
      rw [(run_read_of_fits hfits).1] at hshort
      cases hshort
    · intro hover
      rw [run_read_of_overflows hover] at hshort
      cases hshort
  · rintro ⟨hfits, hover⟩
    obtain ⟨k, hfits', _⟩ | ⟨hover', _⟩ | hshort := run_read_cases w
    · exact absurd ⟨k, hfits'⟩ hfits
    · exact absurd hover' hover
    · exact hshort

theorem Fits.form (h : Fits bs 9 k) : Form (bs.take (k + 1)) (sevens bs (k + 1)) := by
  obtain ⟨form, hform, hsplit⟩ := reads_read.form (readUpTo_of_fits h)
  rwa [List.append_cancel_right ((List.take_append_drop _ _).trans hsplit)]

/-- What is written is read back, and nothing behind it is touched; it has as many bytes as its size
says, one at least and ten at most. Of any bytes those are read that end in time, as the sum of
their sevens, which 64 bits hold; the rest stays where it is, and of all the ways to write a number
the one that is written has the fewest bytes. Bytes that do not end in time hold too much in the
tenth or are too few. -/
theorem varint_exact :
    (∀ (v : UInt64) (t : List UInt8) (w : Window), w.unread = encode v.toNat ++ t →
        (w.run read).1 = .ok v.toNat ∧ (w.run read).2.unread = t) ∧
      (∀ v : UInt64, (encode v.toNat).length = size v.toNat ∧ 1 ≤ size v.toNat ∧
        size v.toNat ≤ 10) ∧
      ∀ w : Window,
        (∀ n, (w.run read).1 = .ok n ↔
          ∃ k, Fits w.unread 9 k ∧ n = sevens w.unread (k + 1)) ∧
        (∀ k, Fits w.unread 9 k → (w.run read).2.pos = w.pos + (k + 1) ∧
          sevens w.unread (k + 1) < 2 ^ 64 ∧ size (sevens w.unread (k + 1)) ≤ k + 1 ∧
          (size (sevens w.unread (k + 1)) = k + 1 ↔
            w.unread.take (k + 1) = encode (sevens w.unread (k + 1)))) ∧
        ((w.run read).1 = .error .varintOverflow ↔ Overflows w.unread 9) ∧
        ((w.run read).1 = .error .endOfBuffer ↔
          ¬(∃ k, Fits w.unread 9 k) ∧ ¬Overflows w.unread 9) := by
  refine ⟨fun v t w hw => ?_, fun v => ?_, fun w => ⟨fun n => run_read_eq_ok_iff,
    fun k hfits => ?_, run_read_eq_varintOverflow_iff, run_read_eq_endOfBuffer_iff⟩⟩
  · have hform := form_encode (n := v.toNat) v.toNat_lt
    have hread : read w.unread = .ok v.toNat (w.unread.drop (encode v.toNat).length) := by
      rw [hw, List.drop_left]
      exact reads_read.ok hform t
    obtain ⟨hvalue, _, hrest⟩ := Window.run_of_ok hread (by simp [hw])
    exact ⟨hvalue, by rw [hrest, hw, List.drop_left]⟩
  · obtain ⟨hdigits, hlength, _⟩ := form_encode (n := v.toNat) v.toNat_lt
    have hpos := hdigits.length_pos
    rw [length_encode] at hpos hlength
    exact ⟨length_encode v.toNat, hpos, hlength⟩
  · have hlength : (w.unread.take (k + 1)).length = k + 1 :=
      List.length_take_of_le hfits.2.1.lt_length
    have hsize := hfits.form.1.size_le
    rw [hlength] at hsize
    exact ⟨(run_read_of_fits hfits).2.1, hfits.form.2.2, hsize⟩

/-- A longer form of 1, and a tenth byte that holds more than one bit. -/
example : ((Window.slice [255, 129, 0, 7] 1 4).run read).1 = .ok 1 ∧
    ((Window.ofBytes [128, 128, 128, 128, 128, 128, 128, 128, 128, 2]).run read).1 =
      .error .varintOverflow := by decide

end Varint

end Protowire
