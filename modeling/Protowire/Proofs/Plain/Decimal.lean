import Protowire.Binary.Parse
import Protowire.Proofs.Binary.Halfway
import Protowire.Proofs.Plain.Integer

/-!
Decimal numerals: digits with a point anywhere among them, and an exponent behind them. What texts
are numerals is said without the reader of texts (`Plain.DecimalNumeral`), and their value is that
of the digits, however large the exponent is. The reader takes these and a few words, and nothing
else, and of a numeral that is out of all range it makes what rounding would make of it.
-/

namespace Protowire

open Binary (double Decimal digitsValue parseDecimal? parseExponent? spanDigits spanSign)

/-- The number that a decimal stands for. -/
def Binary.Decimal.value (d : Decimal) : ℚ := d.digits * 10 ^ d.exponent

namespace Plain

/-- Such a text, perhaps with a sign in front of it; whether it is a minus. -/
inductive Signed (Text : List Char → Prop) : List Char → Bool → Prop
  | bare {cs : List Char} (h : Text cs) : Signed Text cs false
  | plus {cs : List Char} (h : Text cs) : Signed Text ('+' :: cs) false
  | minus {cs : List Char} (h : Text cs) : Signed Text ('-' :: cs) true

/-- What may stand at the end of a numeral: nothing or an exponent. -/
inductive ExponentPart : List Char → Int → Prop
  | none : ExponentPart [] 0
  | mark {c : Char} {cs : List Char} {k : Nat} {negative : Bool} (hc : c = 'e' ∨ c = 'E')
      (h : Signed (Numeral · k) cs negative) : ExponentPart (c :: cs) (if negative then -k else k)

/-- A numeral without a sign. There is a digit in front of the point or behind it. -/
inductive DecimalNumeral : List Char → Decimal → Prop
  | whole {digits last : List Char} {k : Nat} {n : Int} (h : Numeral digits k)
      (hlast : ExponentPart last n) : DecimalNumeral (digits ++ last) ⟨k, n⟩
  | point {front back last : List Char} {k : Nat} {n : Int} (h : Numeral (front ++ back) k)
      (hlast : ExponentPart last n) :
      DecimalNumeral (front ++ '.' :: (back ++ last)) ⟨k, n - back.length⟩

/-- The letters of a word in either case. -/
def Word (letters : List Char) (cs : List Char) : Prop := cs.map Char.toLower = letters

def InfinityWord (cs : List Char) : Prop :=
  Word ['i', 'n', 'f'] cs ∨ Word ['i', 'n', 'f', 'i', 'n', 'i', 't', 'y'] cs

end Plain

variable {cs front rest : List Char} {k : Nat} {n : Int} {d : Decimal} {negative : Bool}

/-! ### Digits and signs -/

namespace Binary

/-- The digits at the front go as far as there are digits. -/
theorem spanDigits_eq_iff : spanDigits cs = (front, rest) ↔
    cs = front ++ rest ∧ (∀ c ∈ front, c.isDigit) ∧ ∀ c ∈ rest.head?, ¬ c.isDigit := by
  rw [spanDigits, Prod.mk.injEq]
  constructor
  · rintro ⟨rfl, rfl⟩
    refine ⟨(List.takeWhile_append_dropWhile).symm, fun c hc => List.mem_takeWhile_imp hc,
      fun c hc => ?_⟩
    have hhead := List.head?_dropWhile_not (fun c : Char => c.isDigit) cs
    rw [Option.mem_def.mp hc] at hhead
    simpa using hhead
  · rintro ⟨rfl, hfront, hrest⟩
    have hnone : rest.takeWhile (·.isDigit) = [] := by
      cases rest with
      | nil => rfl
      | cons c rest => exact List.takeWhile_cons_of_neg (hrest c rfl)
    have hall : rest.dropWhile (·.isDigit) = rest := by
      cases rest with
      | nil => rfl
      | cons c rest => exact List.dropWhile_cons_of_neg (hrest c rfl)
    rw [List.takeWhile_append_of_pos hfront, List.dropWhile_append_of_pos hfront, hnone, hall]
    exact ⟨List.append_nil _, rfl⟩

end Binary

namespace Plain

open Binary

theorem numeral_iff : Numeral cs k ↔ cs ≠ [] ∧ (∀ c ∈ cs, c.isDigit) ∧ k = digitsValue cs := by
  rw [digitsValue_eq_ofDigits]
  exact ⟨fun ⟨hne, hdigits, hvalue⟩ => ⟨hne, hdigits, hvalue.symm⟩,
    fun ⟨hne, hdigits, hvalue⟩ => ⟨hne, hdigits, hvalue.symm⟩⟩

/-- A sign is told from a text that has none in front. -/
theorem signed_iff {Text : List Char → Prop} (hbare : ∀ c cs, Text (c :: cs) → c ≠ '+' ∧ c ≠ '-') :
    Signed Text cs negative ↔ (spanSign cs).1 = negative ∧ Text (spanSign cs).2 := by
  constructor
  · rintro (h | h | h)
    · have hspan : spanSign cs = (false, cs) := by
        cases cs with
        | nil => rfl
        | cons c cs =>
          obtain ⟨hplus, hminus⟩ := hbare c cs h
          rw [spanSign.eq_def]
          split <;> simp_all
      rw [hspan]
      exact ⟨rfl, h⟩
    · exact ⟨rfl, h⟩
    · exact ⟨rfl, h⟩
  · rintro ⟨rfl, h⟩
    revert h
    rw [spanSign.eq_def]
    split
    · exact .minus
    · exact .plus
    · exact .bare

/-! ### Numerals -/

theorem parseExponent?_eq_some_iff : parseExponent? cs = some n ↔ ExponentPart cs n := by
  cases cs with
  | nil =>
    rw [parseExponent?, Option.some.injEq]
    constructor
    · rintro rfl
      exact .none
    · rintro ⟨⟩
      rfl
  | cons c cs =>
    obtain ⟨negative, rest, hsign⟩ : ∃ negative rest, spanSign cs = (negative, rest) :=
      ⟨_, _, rfl⟩
    obtain ⟨digits, tail, hspan⟩ : ∃ digits tail, spanDigits rest = (digits, tail) := ⟨_, _, rfl⟩
    have hsigned {k : Nat} {negative' : Bool} : Signed (Numeral · k) cs negative' ↔
        negative = negative' ∧ Numeral rest k := by
      rw [signed_iff fun _ _ h => h.head_ne, hsign]
    rw [parseExponent?]
    simp only [hsign, hspan]
    obtain ⟨rfl, hdigits, htail⟩ := spanDigits_eq_iff.mp hspan
    constructor
    · intro h
      split at h
      · rename_i hmark
        split at h
        · cases h
        · rename_i hrest
          rw [not_or, List.isEmpty_iff, not_not, List.isEmpty_iff] at hrest
          obtain ⟨hne, rfl⟩ := hrest
          obtain rfl := Option.some.inj h
          rw [List.append_nil] at hsigned
          exact .mark hmark (hsigned.mpr ⟨rfl, numeral_iff.mpr ⟨hne, hdigits, rfl⟩⟩)
      · cases h
    · rintro (_ | ⟨hmark, h⟩)
      obtain ⟨rfl, hnumeral⟩ := hsigned.mp h
      obtain ⟨hne, hall, rfl⟩ := numeral_iff.mp hnumeral
      have hnil : tail = [] := by
        cases tail with
        | nil => rfl
        | cons c tail => exact absurd (hall c (by simp)) (htail c rfl)
      subst hnil
      rw [List.append_nil] at hne ⊢
      rw [if_pos hmark, if_neg (by simp [hne])]

theorem ExponentPart.head (h : ExponentPart cs n) : ∀ c ∈ cs.head?, ¬ c.isDigit ∧ c ≠ '.' := by
  rintro c hc
  rcases h with _ | ⟨rfl | rfl, _⟩ <;> cases hc <;> decide

/-- How a numeral is read when its digits are told apart. -/
theorem parseDecimal?_point {front back last : List Char}
    (hfront : spanDigits cs = (front, '.' :: rest)) (hback : spanDigits rest = (back, last)) :
    parseDecimal? cs = if front ++ back = [] then none else
      (parseExponent? last).map fun n => ⟨digitsValue (front ++ back), n - back.length⟩ := by
  simp only [parseDecimal?, hfront, hback, List.isEmpty_iff, List.append_eq_nil_iff]

theorem parseDecimal?_whole {digits last : List Char} (hdigits : spanDigits cs = (digits, last))
    (hlast : ∀ c ∈ last.head?, c ≠ '.') :
    parseDecimal? cs = if digits = [] then none else
      (parseExponent? last).map fun n => ⟨digitsValue digits, n⟩ := by
  rw [parseDecimal?, hdigits]
  cases last with
  | nil => simp
  | cons c last =>
    have hpoint := hlast c rfl
    simp [hpoint]

theorem parseDecimal?_eq_some_iff : parseDecimal? cs = some d ↔ DecimalNumeral cs d := by
  constructor
  · intro h
    obtain ⟨front, rest, hfront⟩ : ∃ front rest, spanDigits cs = (front, rest) := ⟨_, _, rfl⟩
    by_cases hpoint : ∃ rest', rest = '.' :: rest'
    · obtain ⟨rest, rfl⟩ := hpoint
      obtain ⟨back, last, hback⟩ : ∃ back last, spanDigits rest = (back, last) := ⟨_, _, rfl⟩
      rw [parseDecimal?_point hfront hback] at h
      obtain ⟨rfl, hfrontDigits, _⟩ := spanDigits_eq_iff.mp hfront
      obtain ⟨rfl, hbackDigits, _⟩ := spanDigits_eq_iff.mp hback
      split at h
      · cases h
      · rename_i hne
        obtain ⟨n, hn, rfl⟩ := Option.map_eq_some_iff.mp h
        have hdigits := List.forall_mem_append.mpr ⟨hfrontDigits, hbackDigits⟩
        exact .point (numeral_iff.mpr ⟨hne, hdigits, rfl⟩) (parseExponent?_eq_some_iff.mp hn)
    · have hlast : ∀ c ∈ rest.head?, c ≠ '.' := by
        rintro c hc rfl
        obtain ⟨rest', hrest⟩ := List.head?_eq_some_iff.mp hc
        exact hpoint ⟨rest', hrest⟩
      rw [parseDecimal?_whole hfront hlast] at h
      obtain ⟨rfl, hdigits, _⟩ := spanDigits_eq_iff.mp hfront
      split at h
      · cases h
      · rename_i hne
        obtain ⟨n, hn, rfl⟩ := Option.map_eq_some_iff.mp h
        exact .whole (numeral_iff.mpr ⟨hne, hdigits, rfl⟩) (parseExponent?_eq_some_iff.mp hn)
  · rintro (⟨h, hlast⟩ | ⟨h, hlast⟩)
    · obtain ⟨hne, hdigits, rfl⟩ := numeral_iff.mp h
      have hspan := spanDigits_eq_iff.mpr ⟨rfl, hdigits, fun c hc => (hlast.head c hc).1⟩
      rw [parseDecimal?_whole hspan fun c hc => (hlast.head c hc).2, if_neg hne,
        parseExponent?_eq_some_iff.mpr hlast]
      rfl
    · obtain ⟨hne, hdigits, rfl⟩ := numeral_iff.mp h
      obtain ⟨hfront, hback⟩ := List.forall_mem_append.mp hdigits
      have hspan := spanDigits_eq_iff.mpr ⟨rfl, hback, fun c hc => (hlast.head c hc).1⟩
      rw [parseDecimal?_point (spanDigits_eq_iff.mpr ⟨rfl, hfront, by simp⟩) hspan, if_neg hne,
        parseExponent?_eq_some_iff.mpr hlast]
      rfl

end Plain

/-! ### Words -/

namespace Plain

theorem ofList_eq_iff {letters : List Char} :
    String.ofList (cs.map Char.toLower) = String.ofList letters ↔ Word letters cs :=
  String.ofList_inj

theorem infinityWord_iff : InfinityWord cs ↔ String.ofList (cs.map Char.toLower) = "inf" ∨
    String.ofList (cs.map Char.toLower) = "infinity" :=
  or_congr ofList_eq_iff.symm ofList_eq_iff.symm

theorem toLower_of_isDigit {c : Char} (h : c.isDigit) : c.toLower = c := by
  have hbefore : '9'.val.toNat < 'A'.val.toNat := by decide
  apply Char.toLower_eq_of_not_isUpper
  simp only [Char.isDigit, Char.isUpper, Bool.and_eq_true, decide_eq_true_eq, ge_iff_le,
    UInt32.le_iff_toNat_le] at h ⊢
  omega

/-- A numeral begins with a digit or with the point. -/
theorem DecimalNumeral.head (h : DecimalNumeral cs d) : ∃ c ∈ cs.head?, c.isDigit ∨ c = '.' := by
  cases h with
  | @whole digits _ _ _ h =>
    obtain ⟨hne, hdigits, _⟩ := numeral_iff.mp h
    cases digits with
    | nil => exact absurd rfl hne
    | cons c digits => exact ⟨c, rfl, .inl (hdigits c List.mem_cons_self)⟩
  | @point front _ _ _ _ h =>
    cases front with
    | nil => exact ⟨'.', rfl, .inr rfl⟩
    | cons c front => exact ⟨c, rfl, .inl (h.digits c List.mem_cons_self)⟩

/-- Numerals are no words. -/
theorem DecimalNumeral.not_word (h : DecimalNumeral cs d) {c : Char} {letters : List Char}
    (hc : ¬ c.isDigit ∧ c ≠ '.') : ¬ Word (c :: letters) cs := by
  intro hword
  obtain ⟨first, hfirst, hdigit⟩ := h.head
  have hlower : first.toLower = first := by
    rcases hdigit with hdigit | rfl
    · exact toLower_of_isDigit hdigit
    · rfl
  have hhead := congrArg List.head? hword
  rw [List.head?_map, hfirst, Option.map_some, hlower, List.head?_cons, Option.some.injEq] at hhead
  subst hhead
  exact hdigit.elim hc.1 hc.2

end Plain

/-! ### Texts -/

namespace Binary.Format

open Plain

variable {F : Format} {m : Nat} {s : String} {bits : Nat}

theorem parseMagnitude?_word (h : InfinityWord cs) : F.parseMagnitude? cs = some F.infinity := by
  rw [parseMagnitude?, if_pos (infinityWord_iff.mp h)]

theorem parseMagnitude?_numeral (h : DecimalNumeral cs d) :
    F.parseMagnitude? cs = some (F.ofDecimalClamped d) := by
  have hinfinity : ¬ InfinityWord cs :=
    not_or.mpr ⟨h.not_word (by decide), h.not_word (by decide)⟩
  have hnan : String.ofList (cs.map Char.toLower) ≠ String.ofList ['n', 'a', 'n'] :=
    ofList_eq_iff.not.mpr (h.not_word (by decide))
  rw [parseMagnitude?, if_neg fun hword => hinfinity (infinityWord_iff.mpr hword), if_neg hnan,
    parseDecimal?_eq_some_iff.mpr h]
  rfl

theorem parseMagnitude?_cases (h : F.parseMagnitude? cs = some m) :
    (InfinityWord cs ∧ m = F.infinity) ∨ m = F.quietNaN ∨
      ∃ d, DecimalNumeral cs d ∧ m = F.ofDecimalClamped d := by
  rw [parseMagnitude?] at h
  split at h
  · rename_i hword
    exact .inl ⟨infinityWord_iff.mpr hword, (Option.some.inj h).symm⟩
  · split at h
    · exact .inr (.inl (Option.some.inj h).symm)
    · obtain ⟨d, hd, rfl⟩ := Option.map_eq_some_iff.mp h
      exact .inr (.inr ⟨d, parseDecimal?_eq_some_iff.mp hd, rfl⟩)

theorem signed_infinityWord : Signed InfinityWord cs negative ↔
    (spanSign cs).1 = negative ∧ InfinityWord (spanSign cs).2 :=
  signed_iff fun c cs h => by
    constructor <;> rintro rfl <;> rcases h with h | h <;> cases h

theorem signed_decimalNumeral : Signed (DecimalNumeral · d) cs negative ↔
    (spanSign cs).1 = negative ∧ DecimalNumeral (spanSign cs).2 d :=
  signed_iff fun c cs h => by
    obtain ⟨_, ⟨⟩, hhead⟩ := h.head
    constructor <;> rintro rfl <;> revert hhead <;> decide

theorem parse?_infinity (h : Signed InfinityWord s.toList negative) :
    F.parse? s = some (F.withSign negative F.infinity) := by
  obtain ⟨rfl, hword⟩ := signed_infinityWord.mp h
  exact congrArg (Option.map _) (parseMagnitude?_word hword)

theorem parse?_numeral (h : Signed (DecimalNumeral · d) s.toList negative) :
    F.parse? s = some (F.withSign negative (F.ofDecimalClamped d)) := by
  obtain ⟨rfl, hnumeral⟩ := signed_decimalNumeral.mp h
  exact congrArg (Option.map _) (parseMagnitude?_numeral hnumeral)

/-- A text that is read spells an infinity or no number, or it is a numeral. -/
theorem parse?_cases (h : F.parse? s = some bits) : ∃ negative,
    (Signed InfinityWord s.toList negative ∧ bits = F.withSign negative F.infinity) ∨
      bits = F.withSign negative F.quietNaN ∨
      ∃ d, Signed (DecimalNumeral · d) s.toList negative ∧
        bits = F.withSign negative (F.ofDecimalClamped d) := by
  obtain ⟨m, hm, rfl⟩ := Option.map_eq_some_iff.mp h
  refine ⟨(spanSign s.toList).1, ?_⟩
  rcases parseMagnitude?_cases hm with ⟨hword, rfl⟩ | rfl | ⟨d, hd, rfl⟩
  · exact .inl ⟨signed_infinityWord.mpr ⟨rfl, hword⟩, rfl⟩
  · exact .inr (.inl rfl)
  · exact .inr (.inr ⟨d, signed_decimalNumeral.mpr ⟨rfl, hd⟩, rfl⟩)

end Binary.Format

/-! ### Magnitudes -/

namespace Binary

theorem digitCount_spec (n : Nat) :
    n < 10 ^ digitCount n ∧ (0 < n → 10 ^ (digitCount n - 1) ≤ n) := by
  have hpos : 0 < digitCount n := Nat.length_toDigits_pos
  refine ⟨(Nat.length_toDigits_le_iff (by decide) hpos).mp le_rfl, fun hn => ?_⟩
  by_contra hlt
  by_cases hone : digitCount n - 1 = 0
  · rw [hone, pow_zero] at hlt
    omega
  · have hle := (Nat.length_toDigits_le_iff (by decide) (Nat.pos_of_ne_zero hone)).mpr
      (not_le.mp hlt)
    have hshort : digitCount n ≤ digitCount n - 1 := hle
    omega

/-- The value of a decimal lies below the power of ten of its top place, by no more than a digit. -/
theorem Decimal.value_bounds (hd : 0 < d.digits) :
    (10 : ℚ) ^ (d.exponent + digitCount d.digits - 1) ≤ d.value ∧
      d.value < (10 : ℚ) ^ (d.exponent + digitCount d.digits) := by
  obtain ⟨hhigh, hlow⟩ := digitCount_spec d.digits
  have hpos : 0 < digitCount d.digits := Nat.length_toDigits_pos
  have hlow' : (10 : ℚ) ^ (digitCount d.digits - 1) ≤ d.digits := by exact_mod_cast hlow hd
  have hhigh' : (d.digits : ℚ) < (10 : ℚ) ^ digitCount d.digits := by exact_mod_cast hhigh
  constructor
  · calc (10 : ℚ) ^ (d.exponent + digitCount d.digits - 1)
        = (10 : ℚ) ^ (digitCount d.digits - 1) * (10 : ℚ) ^ d.exponent := by
          rw [← zpow_natCast, ← zpow_add₀ (by norm_num)]
          congr 1
          omega
      _ ≤ d.value := by
          rw [Decimal.value]
          gcongr
  · calc d.value < (10 : ℚ) ^ digitCount d.digits * (10 : ℚ) ^ d.exponent := by
          rw [Decimal.value]
          gcongr
      _ = (10 : ℚ) ^ (d.exponent + digitCount d.digits) := by
          rw [← zpow_natCast, ← zpow_add₀ (by norm_num), add_comm]

namespace Format

theorem ofDecimalClamped_le_infinity (F : Format) (d : Decimal) :
    F.ofDecimalClamped d ≤ F.infinity := by
  rw [ofDecimalClamped]
  split
  · exact Nat.zero_le _
  · split
    · exact le_rfl
    · split
      · exact Nat.zero_le _
      · exact round_le_infinity ..

theorem value_double_infinity : double.value double.infinity = 2 ^ 1024 := by
  have hparts : double.infinity = 2046 * 2 ^ double.fractionBits + 2 ^ 52 := by decide
  have hmin : double.minExponent = -1074 := by decide
  rw [hparts, value_compose (by decide) (.inr (by decide)), hmin, Nat.cast_pow, ← zpow_natCast,
    ← zpow_natCast, Nat.cast_ofNat, ← zpow_add₀ (by norm_num)]
  rfl

theorem value_double_one : double.value 1 = (2 : ℚ) ^ (-1074 : Int) := by
  have hparts : 1 = 0 * 2 ^ double.fractionBits + 1 := by decide
  have hmin : double.minExponent = -1074 := by decide
  rw [hparts, value_compose (by decide) (.inl rfl), hmin]
  norm_num

/-- Every middle but the first lies between these powers of ten. -/
theorem halfway_double_bounds {n : Nat} (hpos : 0 < n) (hn : n < double.infinity) :
    (10 : ℚ) ^ (-1074 : Int) ≤ double.halfway n ∧
      double.halfway n ≤ (10 : ℚ) ^ ((1024 : Nat) : Int) := by
  have hmono := double.value_strictMono.monotone
  constructor
  · calc (10 : ℚ) ^ (-1074 : Int) ≤ (2 : ℚ) ^ (-1074 : Int) := by
          rw [zpow_neg, zpow_neg]
          gcongr ?_⁻¹
          exact zpow_le_zpow_left₀ (by decide) (by norm_num) (by norm_num)
      _ = double.value 1 := value_double_one.symm
      _ ≤ double.halfway n := (hmono hpos).trans (double.value_lt_halfway n).le
  · calc double.halfway n ≤ double.value double.infinity :=
          (double.halfway_lt_value n).le.trans (hmono hn)
      _ = 2 ^ 1024 := value_double_infinity
      _ ≤ (10 : ℚ) ^ ((1024 : Nat) : Int) := by
          rw [zpow_natCast]
          gcongr
          norm_num

/-- What is far out of range needs no powers of ten: it is rounded up where the decimal would be. -/
theorem lt_ofDecimalClamped_iff {n : Nat} (hodd : n % 2 = 1) (hn : n < double.infinity)
    (d : Decimal) : n < double.ofDecimalClamped d ↔ double.halfway n ≤ d.value := by
  have hreach : ((1 <<< double.exponentBits : Nat) : Int) = 2048 := by decide
  obtain ⟨hleast, hgreatest⟩ := halfway_double_bounds (by omega) hn
  simp only [ofDecimalClamped, hreach]
  split
  · rename_i hzero
    have hpos : 0 < double.halfway n := lt_of_lt_of_le (by positivity) hleast
    rw [Decimal.value, hzero, Nat.cast_zero, zero_mul]
    exact iff_of_false n.not_lt_zero (not_le.mpr hpos)
  rename_i hdigits
  obtain ⟨hlow, hhigh⟩ := Decimal.value_bounds (Nat.pos_of_ne_zero hdigits)
  split
  · rename_i htop
    have hreached : (10 : ℚ) ^ ((1024 : Nat) : Int) ≤ d.value :=
      (zpow_le_zpow_right₀ (by norm_num) (by omega)).trans hlow
    exact iff_of_true hn (hgreatest.trans hreached)
  split
  · rename_i htop
    have hbelow : d.value < (10 : ℚ) ^ (-1074 : Int) :=
      hhigh.trans_le (zpow_le_zpow_right₀ (by norm_num) (by omega))
    exact iff_of_false n.not_lt_zero (not_le.mpr (hbelow.trans_le hleast))
  · obtain ⟨hden, hvalue⟩ := scaled_spec (by decide : 0 < 10) d.digits d.exponent
    rw [Nat.cast_ofNat] at hvalue
    rw [Decimal.value, ← hvalue]
    exact lt_round_iff (by decide) _ hden hodd hn

end Format

end Binary

end Protowire
