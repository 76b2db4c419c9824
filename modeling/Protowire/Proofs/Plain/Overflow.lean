import Protowire.Proofs.Plain.Decimal

/-!
What becomes of numbers that are too large. A field of floating-point numbers keeps a numeral finite
up to its limit, the middle between the greatest finite number and the one that would come next. A
field of single precision refuses a numeral beyond that, but only if double precision can still hold
it: from there on the numeral is an infinity before it is looked at, and is taken for one. In no
other way but these an infinity is read, except from a word for it.
-/

namespace Protowire

open Binary (single double Format)

/-- The format of a field of floating-point numbers. -/
def Scalar.format? : Scalar → Option Format
  | .float => some Binary.single
  | .double => some Binary.double
  | _ => none

/-- The format and the bits of a floating-point number. -/
def Value.number? : Value → Option (Format × Nat)
  | .float bits => some (Binary.single, bits.toNat)
  | .double bits => some (Binary.double, bits.toNat)
  | _ => none

/-- From here on double precision overflows. -/
def Plain.doubleLimit : ℚ := 2 ^ 1024 - 2 ^ 970

/-- From here on a magnitude is not kept finite. On its way to single precision it is rounded to
double precision, which brings it up to the middle from half a place below. -/
def Scalar.limit : Scalar → ℚ
  | .float => 2 ^ 128 - 2 ^ 103 - 2 ^ 74
  | _ => Plain.doubleLimit

namespace Plain

/-- A plain value is a finite number of this magnitude, or a numeral for one. -/
inductive Magnitude : Plain → Bool → ℚ → Prop
  | text {text : String} {negative : Bool} {d : Binary.Decimal}
      (h : Signed (DecimalNumeral · d) text.toList negative) :
      Magnitude (.string text) negative d.value
  | int {n : Int} : Magnitude (.int n) (n < 0) n.natAbs
  | float {bits : UInt64} (hfinite : double.isFinite bits.toNat) :
      Magnitude (.float bits) (double.isNegative bits.toNat)
        (double.value (double.magnitude bits.toNat))

/-- A plain value is a word for an infinity. -/
def SpellsInfinity (v : Plain) (negative : Bool) : Prop :=
  ∃ text, v = .string text ∧ Signed InfinityWord text.toList negative

/-- An object gives `v` to field `f` of a message of type `t`, alone or as an element, and what
stands in front can be read. What is read from `v` goes into `next`, the rest of the reading. -/
inductive Gives (S : Schema) (t : TypeId) (f : Field) (v : Plain) :
    Plain → (Value → Except PlainError Message) → Prop
  | value {key : String} {front rest : List (String × Plain)} {m : Message}
      (hfront : takeEntries S (.empty t) front = .ok m) (hkey : key ≠ typeKey)
      (hnamed : (S.type t).fieldNamed? key = some f) (hsingular : f.repeated = false) :
      Gives S t f v (.object (front ++ (key, v) :: rest))
        fun w => takeEntries S (m.put S f.number w) rest
  | element {key : String} {front rest : List (String × Plain)} {before after : List Plain}
      {ws : List Value} {m : Message}
      (hfront : takeEntries S (.empty t) front = .ok m) (hkey : key ≠ typeKey)
      (hnamed : (S.type t).fieldNamed? key = some f) (hrepeated : f.repeated)
      (hbefore : f.valuesOfItems S before = .ok ws) :
      Gives S t f v (.object (front ++ (key, .array (before ++ v :: after)) :: rest))
        fun w => (f.valuesOfItems S after).bind fun ws' =>
          takeEntries S (m.putItems S f.number (ws ++ w :: ws')) rest

end Plain

variable {S : Schema} {t : TypeId} {f : Field} {v object : Plain} {s : Scalar} {F : Format}
  {next : Value → Except PlainError Message} {w : Value} {m n : Nat} {negative : Bool} {x : ℚ}

/-! ### Limits -/

namespace Binary.Format

/-- The middle is half a unit in the last place below the next number. -/
theorem halfway_eq (F : Format) (m : Nat) :
    F.halfway m = F.value (m + 1) - (2 : ℚ) ^ (F.minExponent + F.step m - 1) := by
  rw [halfway, value_succ, zpow_sub_one₀ (by norm_num)]
  ring

theorem halfway_double_infinity : double.halfway (double.infinity - 1) = Plain.doubleLimit := by
  have hnext : double.infinity - 1 + 1 = double.infinity := by decide
  have hplace : double.minExponent + double.step (double.infinity - 1) - 1 = (970 : Nat) := by
    decide
  rw [halfway_eq, hnext, hplace, value_double_infinity, zpow_natCast, Plain.doubleLimit]

theorem halfway_single_infinity :
    single.halfway (single.infinity - 1) = 2 ^ 128 - 2 ^ 103 := by
  have hnext : single.infinity - 1 + 1 = 254 * 2 ^ single.fractionBits + 2 ^ 23 := by decide
  have hplace : single.minExponent + single.step (single.infinity - 1) - 1 = (103 : Nat) := by
    decide
  have hmin : single.minExponent = -149 := by decide
  rw [halfway_eq, hplace, hnext, value_compose (by decide) (.inr (by decide)), hmin]
  norm_num

/-- The middle at which single precision overflows, as a number of double precision. -/
def narrowingLimit : Nat := 1149 * 2 ^ 52 + (2 ^ 53 - 2 ^ 28)

theorem value_narrowingLimit : double.value narrowingLimit = 2 ^ 128 - 2 ^ 103 := by
  have hparts : narrowingLimit = 1149 * 2 ^ double.fractionBits + (2 ^ 53 - 2 ^ 28) := rfl
  have hmin : double.minExponent = -1074 := by decide
  rw [hparts, value_compose (by decide) (.inr (by decide)), hmin]
  norm_num

theorem halfway_narrowingLimit : double.halfway (narrowingLimit - 1) = Scalar.float.limit := by
  have hnext : narrowingLimit - 1 + 1 = narrowingLimit := by decide
  have hplace : double.minExponent + double.step (narrowingLimit - 1) - 1 = (74 : Nat) := by
    decide
  rw [halfway_eq, hnext, hplace, value_narrowingLimit, zpow_natCast, Scalar.limit]

end Binary.Format

/-! ### Numbers in double precision -/

/-- The magnitude `m` of double precision is where `x` is rounded to, as far as one can tell from
the middles in front of even magnitudes. -/
structure Binary.Format.Rounded (x : ℚ) (m : Nat) : Prop where
  le : m ≤ double.infinity
  lt_iff : ∀ n, n % 2 = 1 → n < double.infinity → (n < m ↔ double.halfway n ≤ x)

namespace Plain

open Binary.Format

theorem Magnitude.double? (h : v.Magnitude negative x) :
    ∃ m, Rounded x m ∧ v.double? = some (double.withSign negative m) := by
  cases h with
  | @text text negative d h =>
    have hrounded : Rounded d.value (double.ofDecimalClamped d) :=
      ⟨ofDecimalClamped_le_infinity _ d, fun n hodd hn => lt_ofDecimalClamped_iff hodd hn d⟩
    exact ⟨_, hrounded, parse?_numeral h⟩
  | @int k =>
    refine ⟨double.round k.natAbs 1, ⟨round_le_infinity .., fun n hodd hn => ?_⟩, rfl⟩
    have hround := lt_round_iff (F := double) (by decide) k.natAbs Nat.one_pos hodd hn
    rwa [Nat.cast_one, div_one] at hround
  | @float bits hfinite =>
    have hmono := double.value_strictMono
    have hlt : double.magnitude bits.toNat < double.infinity := by simpa [isFinite] using hfinite
    refine ⟨double.magnitude bits.toNat, ⟨hlt.le, fun n _ _ => ?_⟩, ?_⟩
    · constructor
      · intro hn
        exact (double.halfway_lt_value n).le.trans (hmono.monotone hn)
      · intro hn
        exact hmono.lt_iff_lt.mp ((double.value_lt_halfway n).trans_le hn)
    · rw [double.withSign_magnitude bits.toNat_lt]
      rfl

end Plain

/-! ### Which numbers stay finite -/

namespace Binary.Format

theorem Rounded.lt_succ_iff (h : Rounded x m) (hodd : n % 2 = 1) (hn : n < double.infinity) :
    m < n + 1 ↔ x < double.halfway n := by
  rw [Nat.lt_succ_iff, ← not_lt, h.lt_iff n hodd hn, not_le]

theorem Rounded.lt_infinity_iff (h : Rounded x m) :
    m < double.infinity ↔ x < Plain.doubleLimit := by
  have hiff := h.lt_succ_iff (n := double.infinity - 1) (by decide) (by decide)
  rwa [halfway_double_infinity] at hiff

theorem Rounded.lt_narrowingLimit_iff (h : Rounded x m) :
    m < narrowingLimit ↔ x < Scalar.float.limit := by
  have hiff := h.lt_succ_iff (n := narrowingLimit - 1) (by decide) (by decide)
  rwa [halfway_narrowingLimit] at hiff

theorem isFinite_withSign (hm : m < F.signBit) (negative : Bool) :
    F.isFinite (F.withSign negative m) = decide (m < F.infinity) := by
  rw [isFinite, magnitude_withSign negative hm]

/-- A sign and a magnitude are told apart again. -/
theorem withSign_inj {negative' : Bool} {k : Nat} (hm : m < F.signBit) (hk : k < F.signBit)
    (h : F.withSign negative m = F.withSign negative' k) : negative = negative' ∧ m = k := by
  refine ⟨?_, ?_⟩
  · rw [← isNegative_withSign negative hm, h, isNegative_withSign negative' hk]
  · rw [← magnitude_withSign negative hm, h, magnitude_withSign negative' hk]

/-- A finite number of double precision keeps its sign in single precision, and stays finite below
the middle at which single precision overflows. -/
theorem convert_finite (hm : m < double.infinity) (negative : Bool) :
    ∃ k ≤ single.infinity, (k < single.infinity ↔ m < narrowingLimit) ∧
      double.convert single (double.withSign negative m) = single.withSign negative k := by
  have hsign : m < double.signBit := hm.trans double.infinity_lt_signBit
  have hmagnitude := magnitude_withSign negative hsign
  have hnan : double.isNaN (double.withSign negative m) = false := by
    rw [isNaN_withSign negative hsign, decide_eq_false_iff_not]
    omega
  have hinfinite : double.isInfinite (double.withSign negative m) = false := by
    rw [isInfinite, hmagnitude, decide_eq_false_iff_not]
    omega
  obtain ⟨hden, hvalue⟩ := double.toFraction_spec (double.withSign negative m)
  have hround := lt_round_iff (F := single) (n := single.infinity - 1) (by decide)
    (double.toFraction (double.withSign negative m)).1 hden (by decide) (by decide)
  rw [hvalue, hmagnitude, halfway_single_infinity, ← value_narrowingLimit,
    double.value_strictMono.le_iff_le] at hround
  have hle := round_le_infinity single (double.toFraction (double.withSign negative m)).1
    (double.toFraction (double.withSign negative m)).2
  have hinfinity : single.infinity = single.infinity - 1 + 1 := by decide
  refine ⟨_, hle, by omega, ?_⟩
  simp only [convert, hnan, hinfinite, isNegative_withSign negative hsign, Bool.false_eq_true,
    ↓reduceIte]

/-- The infinity or the NaN of a format. -/
inductive NotFinite : (Format → Nat) → Prop
  | infinity : NotFinite infinity
  | nan : NotFinite quietNaN

theorem NotFinite.bounds {special : Format → Nat} (h : NotFinite special) {s : Scalar}
    (hs : s.format? = some F) : F.infinity ≤ special F ∧ special F < F.signBit := by
  cases s <;> cases hs <;> cases h <;> decide

theorem NotFinite.convert {special : Format → Nat} (h : NotFinite special) (negative : Bool) :
    double.convert single (double.withSign negative (special double)) =
      single.withSign negative (special single) := by
  cases h with
  | infinity =>
    have hsign := double.infinity_lt_signBit
    rw [convert_of_infinity (magnitude_withSign negative hsign), isNegative_withSign negative hsign]
  | nan =>
    have hsign : double.quietNaN < double.signBit := by decide
    rw [convert_of_isNaN (by rw [isNaN_withSign negative hsign]; decide),
      isNegative_withSign negative hsign]

end Binary.Format

/-! ### Fields of floating-point numbers -/

namespace Scalar

open Binary.Format

theorem number?_double (hm : m < Binary.double.signBit) (negative : Bool) :
    (Value.double (Binary.double.withSign negative m).toUInt64).number? =
      some (Binary.double, Binary.double.withSign negative m) := by
  have hlt : Binary.double.withSign negative m < 2 ^ 64 := withSign_lt negative hm
  exact congrArg (fun bits => some (Binary.double, bits)) (Nat.mod_eq_of_lt hlt)

theorem number?_float (hm : m < single.signBit) (negative : Bool) :
    (Value.float (single.withSign negative m).toUInt32).number? =
      some (single, single.withSign negative m) := by
  have hlt : single.withSign negative m < 2 ^ 32 := withSign_lt negative hm
  exact congrArg (fun bits => some (single, bits)) (Nat.mod_eq_of_lt hlt)

theorem ofPlain_double {bits : Nat} (h : v.double? = some bits) (name : String) :
    Scalar.double.ofPlain name v = .ok (.double bits.toUInt64) := by
  simp only [ofPlain, h]

theorem ofPlain_float {bits : Nat} (h : v.double? = some bits) (name : String) :
    Scalar.float.ofPlain name v =
      if Binary.double.isFinite bits && !single.isFinite (Binary.double.convert single bits) then
        .error (.outOfRange name)
      else .ok (.float (Binary.double.convert single bits).toUInt32) := by
  simp only [ofPlain, h]

/-- An infinity or a NaN stays what it is. -/
theorem ofPlain_notFinite {special : Format → Nat} (hspecial : NotFinite special)
    (hs : s.format? = some F)
    (h : v.double? = some (Binary.double.withSign negative (special Binary.double)))
    (name : String) :
    ∃ w, w.number? = some (F, F.withSign negative (special F)) ∧ s.ofPlain name v = .ok w := by
  cases s <;> cases hs
  case double =>
    have hbounds := hspecial.bounds (s := .double) rfl
    exact ⟨_, number?_double hbounds.2 negative, ofPlain_double h name⟩
  case float =>
    obtain ⟨hge, hlt⟩ := hspecial.bounds (s := .double) rfl
    refine ⟨_, number?_float (hspecial.bounds (s := .float) rfl).2 negative, ?_⟩
    rw [ofPlain_float h, hspecial.convert, isFinite_withSign hlt, decide_eq_false (not_lt.mpr hge)]
    rfl

/-- A finite number stays finite below the limit of its field, and is refused from there on. -/
theorem ofPlain_finite (hs : s.format? = some F) (hm : m < Binary.double.infinity)
    (hx : Rounded x m) (h : v.double? = some (Binary.double.withSign negative m)) (name : String) :
    (x < s.limit → ∃ w k, k < F.infinity ∧ w.number? = some (F, F.withSign negative k) ∧
        s.ofPlain name v = .ok w) ∧
      (s.limit ≤ x → s.ofPlain name v = .error (.outOfRange name)) := by
  have hsign := hm.trans Binary.double.infinity_lt_signBit
  cases s <;> cases hs
  case double =>
    exact ⟨fun _ => ⟨_, m, hm, number?_double hsign negative, ofPlain_double h name⟩,
      fun hge => absurd (hx.lt_infinity_iff.mp hm) (not_lt.mpr hge)⟩
  case float =>
    obtain ⟨k, hk, hfinite, hconvert⟩ := convert_finite hm negative
    have hsign' := hk.trans_lt single.infinity_lt_signBit
    rw [ofPlain_float h, hconvert, isFinite_withSign hsign, isFinite_withSign hsign',
      ← hx.lt_narrowingLimit_iff, ← not_lt, ← hx.lt_narrowingLimit_iff, ← hfinite]
    refine ⟨fun hlt => ⟨_, k, hlt, number?_float hsign' negative, ?_⟩, fun hge => ?_⟩
    · simp [hlt]
    · simp [hm, hge]

theorem float_limit_lt : float.limit < Plain.doubleLimit := by
  have hle : narrowingLimit - 1 + 1 ≤ Binary.double.infinity - 1 := by decide
  have hmono := Binary.double.value_strictMono.monotone hle
  have hbelow := Binary.double.halfway_lt_value (narrowingLimit - 1)
  have habove := Binary.double.value_lt_halfway (Binary.double.infinity - 1)
  rw [halfway_narrowingLimit] at hbelow
  rw [halfway_double_infinity] at habove
  exact hbelow.trans (hmono.trans_lt habove)

theorem limit_le (s : Scalar) : s.limit ≤ Plain.doubleLimit := by
  cases s with
  | float => exact float_limit_lt.le
  | _ => exact le_rfl

/-- Whether a number or a numeral stays finite, is refused or overflows, its magnitude decides. -/
theorem ofPlain_magnitude (hs : s.format? = some F) (h : v.Magnitude negative x) (name : String) :
    (x < s.limit → ∃ w k, k < F.infinity ∧ w.number? = some (F, F.withSign negative k) ∧
        s.ofPlain name v = .ok w) ∧
      (s.limit ≤ x → x < Plain.doubleLimit → s.ofPlain name v = .error (.outOfRange name)) ∧
      (Plain.doubleLimit ≤ x →
        ∃ w, w.number? = some (F, F.withSign negative F.infinity) ∧ s.ofPlain name v = .ok w) := by
  obtain ⟨m, hx, hdouble⟩ := h.double?
  rcases hx.le.lt_or_eq with hm | rfl
  · obtain ⟨hkept, hrefused⟩ := ofPlain_finite hs hm hx hdouble name
    exact ⟨hkept, fun hge _ => hrefused hge,
      fun hge => absurd (hx.lt_infinity_iff.mp hm) (not_lt.mpr hge)⟩
  · have hge : Plain.doubleLimit ≤ x := not_lt.mp (hx.lt_infinity_iff.not.mp (lt_irrefl _))
    refine ⟨fun hlt => absurd (hge.trans_lt hlt) (not_lt.mpr s.limit_le),
      fun _ hlt => absurd hge (not_le.mpr hlt), fun _ => ?_⟩
    exact ofPlain_notFinite .infinity hs hdouble name

/-- What is read in double precision is an infinity in words, a NaN or a number. -/
theorem double?_cases {bits : Nat}
    (hfinite : ∀ bits, v = .float bits → Binary.double.isFinite bits.toNat)
    (h : v.double? = some bits) : ∃ negative,
      (v.SpellsInfinity negative ∧
        bits = Binary.double.withSign negative Binary.double.infinity) ∨
      bits = Binary.double.withSign negative Binary.double.quietNaN ∨
      ∃ x, v.Magnitude negative x := by
  cases v with
  | null | bool | array | object => cases h
  | int k => exact ⟨_, .inr (.inr ⟨_, .int⟩)⟩
  | float bits => exact ⟨_, .inr (.inr ⟨_, .float (hfinite bits rfl)⟩)⟩
  | string text =>
    obtain ⟨negative, hword | hnan | ⟨d, hd, _⟩⟩ := parse?_cases h
    · exact ⟨negative, .inl ⟨⟨text, rfl, hword.1⟩, hword.2⟩⟩
    · exact ⟨negative, .inr (.inl hnan)⟩
    · exact ⟨negative, .inr (.inr ⟨_, .text hd⟩)⟩

theorem exists_double?_of_ofPlain (hs : s.format? = some F) {name : String}
    (h : s.ofPlain name v = .ok w) : ∃ bits, v.double? = some bits := by
  cases hdouble : v.double? with
  | some bits => exact ⟨bits, rfl⟩
  | none => cases s <;> cases hs <;> simp [ofPlain, hdouble] at h

theorem ofPlain_spellsInfinity (hs : s.format? = some F) (h : v.SpellsInfinity negative)
    (name : String) :
    ∃ w, w.number? = some (F, F.withSign negative F.infinity) ∧ s.ofPlain name v = .ok w := by
  obtain ⟨text, rfl, hword⟩ := h
  have hdouble : (Plain.string text).double? = _ := parse?_infinity hword
  exact ofPlain_notFinite .infinity hs hdouble name

/-- From one value one number is read. -/
theorem ofPlain_number_inj {negative' : Bool} {k : Nat} {name : String} (hm : m < F.signBit)
    (hk : k < F.signBit)
    (h : ∃ w, w.number? = some (F, F.withSign negative m) ∧ s.ofPlain name v = .ok w)
    (h' : ∃ w, w.number? = some (F, F.withSign negative' k) ∧ s.ofPlain name v = .ok w) :
    negative = negative' ∧ m = k := by
  obtain ⟨w, hw, hread⟩ := h
  obtain ⟨w', hw', hread'⟩ := h'
  obtain rfl := Except.ok.inj (hread.symm.trans hread')
  rw [hw, Option.some.injEq, Prod.mk.injEq] at hw'
  exact withSign_inj hm hk hw'.2

/-- An infinity is read from a word for it and from what double precision cannot hold. -/
theorem ofPlain_infinity_iff (hs : s.format? = some F)
    (hfinite : ∀ bits, v = .float bits → Binary.double.isFinite bits.toNat) (name : String)
    (negative : Bool) :
    (∃ w, w.number? = some (F, F.withSign negative F.infinity) ∧ s.ofPlain name v = .ok w) ↔
      v.SpellsInfinity negative ∨ ∃ x, v.Magnitude negative x ∧ Plain.doubleLimit ≤ x := by
  have hinfinity := F.infinity_lt_signBit
  constructor
  · intro h
    have ⟨w, _, hread⟩ := h
    obtain ⟨bits, hbits⟩ := exists_double?_of_ofPlain hs hread
    obtain ⟨negative', ⟨hword, _⟩ | rfl | ⟨x, hx⟩⟩ := double?_cases hfinite hbits
    · have hspelled := ofPlain_spellsInfinity hs hword name
      obtain ⟨rfl, _⟩ := ofPlain_number_inj hinfinity hinfinity h hspelled
      exact .inl hword
    · have hnan := ofPlain_notFinite .nan hs hbits name
      have hsame := (ofPlain_number_inj hinfinity (NotFinite.nan.bounds hs).2 h hnan).2
      have hpos := Nat.two_pow_pos (F.fractionBits - 1)
      rw [Format.quietNaN, Nat.one_shiftLeft] at hsame
      omega
    · obtain ⟨hkept, hrefused, hlarge⟩ := ofPlain_magnitude hs hx name
      rcases lt_or_ge x s.limit with hlt | hge
      · obtain ⟨w', k, hk, hw'⟩ := hkept hlt
        have hsame := (ofPlain_number_inj hinfinity (hk.trans hinfinity) h ⟨w', hw'⟩).2
        exact absurd hsame hk.ne'
      rcases lt_or_ge x Plain.doubleLimit with hlt | hge'
      · cases hread.symm.trans (hrefused hge hlt)
      · obtain ⟨rfl, _⟩ := ofPlain_number_inj hinfinity hinfinity h (hlarge hge')
        exact .inr ⟨x, hx, hge'⟩
  · rintro (hword | ⟨x, hx, hge⟩)
    · exact ofPlain_spellsInfinity hs hword name
    · exact (ofPlain_magnitude hs hx name).2.2 hge

end Scalar

/-! ### Objects -/

theorem Field.valuesOfItems_append {before : List Plain} {ws : List Value}
    (hbefore : f.valuesOfItems S before = .ok ws) (v : Plain) (after : List Plain) :
    f.valuesOfItems S (before ++ v :: after) = (f.valueOfPlain S v).bind fun w =>
      (f.valuesOfItems S after).map fun ws' => ws ++ w :: ws' := by
  induction before generalizing ws with
  | nil =>
    cases hbefore
    rw [List.nil_append, valuesOfItems]
    cases f.valueOfPlain S v <;> rfl
  | cons u before ih =>
    rw [valuesOfItems] at hbefore
    rw [List.cons_append, valuesOfItems]
    split at hbefore
    · obtain ⟨ws, hws, rfl⟩ := except_map_eq_ok hbefore
      rw [ih hws]
      cases f.valueOfPlain S v with
      | error e => rfl
      | ok w => cases f.valuesOfItems S after <;> rfl
    · cases hbefore

/-- The object is read up to the value and past it. -/
theorem Plain.Gives.read (hgives : Gives S t f v object next) (hnull : v.isNull = false) :
    Message.ofPlain S t object = (f.valueOfPlain S v).bind next := by
  cases hgives with
  | @value key front rest m hfront hkey hnamed hsingular =>
    obtain rfl : m.type = t := type_takeEntries hfront
    rw [Message.ofPlain, takeEntries_append, hfront, Except.bind, takeEntries_cons,
      takeEntries_singular hkey hnamed hnull hsingular]
    cases f.valueOfPlain S v <;> rfl
  | @element key front rest before after ws m hfront hkey hnamed hrepeated hbefore =>
    obtain rfl : m.type = t := type_takeEntries hfront
    have hvalues : f.valuesOfPlain S (.array (before ++ v :: after)) = _ :=
      Field.valuesOfItems_append hbefore v after
    rw [Message.ofPlain, takeEntries_append, hfront, Except.bind, takeEntries_cons,
      takeEntries_repeated hkey hnamed rfl hrepeated, hvalues]
    cases f.valueOfPlain S v with
    | error e => rfl
    | ok w => cases f.valuesOfItems S after <;> rfl

theorem Plain.Magnitude.isNull (h : v.Magnitude negative x) : v.isNull = false := by
  cases h <;> rfl

/-- A field of floating-point numbers keeps a number or a numeral finite below its limit. Beyond it
the object is refused, as long as double precision can hold the number. An infinity is stored for
the words for one, and for what double precision cannot hold, and for nothing else. -/
theorem plain_numeral_range (hgives : Plain.Gives S t f v object next)
    (hkind : f.kind = .scalar s) (hs : s.format? = some F)
    (hfinite : ∀ bits, v = .float bits → double.isFinite bits.toNat) :
    (∀ negative x, v.Magnitude negative x → x < s.limit → ∃ w m, m < F.infinity ∧
        w.number? = some (F, F.withSign negative m) ∧ Message.ofPlain S t object = next w) ∧
      (∀ negative x, v.Magnitude negative x → s.limit ≤ x → x < Plain.doubleLimit →
        Message.ofPlain S t object = .error (.outOfRange f.name)) ∧
      ∀ negative, (∃ w, w.number? = some (F, F.withSign negative F.infinity) ∧
          f.valueOfPlain S v = .ok w ∧ Message.ofPlain S t object = next w) ↔
        v.SpellsInfinity negative ∨ ∃ x, v.Magnitude negative x ∧ Plain.doubleLimit ≤ x := by
  rw [Field.valueOfPlain_scalar hkind]
  have hread (hnull : v.isNull = false) :
      Message.ofPlain S t object = (s.ofPlain f.name v).bind next := by
    rw [hgives.read hnull, Field.valueOfPlain_scalar hkind]
  refine ⟨fun negative x hx hlt => ?_, fun negative x hx hge hlt => ?_, fun negative => ?_⟩
  · obtain ⟨w, m, hm, hw, hvalue⟩ := (Scalar.ofPlain_magnitude hs hx f.name).1 hlt
    refine ⟨w, m, hm, hw, ?_⟩
    rw [hread hx.isNull, hvalue]
    rfl
  · rw [hread hx.isNull, (Scalar.ofPlain_magnitude hs hx f.name).2.1 hge hlt]
    rfl
  · have hiff := Scalar.ofPlain_infinity_iff hs hfinite f.name negative
    rw [← hiff]
    constructor
    · rintro ⟨w, hw, hvalue, _⟩
      exact ⟨w, hw, hvalue⟩
    · rintro ⟨w, hw, hvalue⟩
      have hnull : v.isNull = false := by
        rcases hiff.mp ⟨w, hw, hvalue⟩ with ⟨text, rfl, _⟩ | ⟨x, hx, _⟩
        · rfl
        · exact hx.isNull
      refine ⟨w, hw, hvalue, ?_⟩
      rw [hread hnull, hvalue]
      rfl

section

open Vision

/-- One type, with a repeated field of single precision. -/
def series : Schema := ⟨#[⟨"Series", [.many 1 "samples" .float], []⟩]⟩

def atLimit : String := "340282356779733642748073463979561713664"

def belowLimit : String := "340282356779733642748073463979561713663"

/-- The last numeral that is kept, and the first one that is refused. -/
theorem series_at_limit :
    Message.ofPlain series 0 (.object [("samplesList", .array [.int 1, .string atLimit])]) =
        .error (.outOfRange "samples") ∧
      ∃ w m, m < single.infinity ∧ w.number? = some (single, m) ∧
        Message.ofPlain series 0
            (.object [("samplesList", .array [.int 1, .string belowLimit])]) =
          .ok ⟨0, [(1, .list [.float 0x3f800000, w])]⟩ := by
  have hfront : takeEntries series (.empty 0) [] = .ok (.empty 0) := rfl
  have hkey : "samplesList" ≠ Plain.typeKey := by decide
  have hnamed : (series.type 0).fieldNamed? "samplesList" = some (.many 1 "samples" .float) := by
    cbv
  have hbefore : Field.valuesOfItems series (.many 1 "samples" .float) [.int 1] =
      .ok [.float 0x3f800000] := rfl
  have hgives (v : Plain) : Plain.Gives series 0 (.many 1 "samples" .float) v
      (.object [("samplesList", .array [.int 1, v])])
      fun w => .ok ⟨0, [(1, .list [.float 0x3f800000, w])]⟩ :=
    .element hfront hkey hnamed rfl hbefore
  have hrange (text : String) :=
    plain_numeral_range (hgives (.string text)) rfl rfl (by rintro bits ⟨⟩)
  have hat : Plain.DecimalNumeral atLimit.toList ⟨340282356779733642748073463979561713664, 0⟩ :=
    Plain.parseDecimal?_eq_some_iff.mp (by decide +kernel)
  have hbelow : Plain.DecimalNumeral belowLimit.toList
      ⟨340282356779733642748073463979561713663, 0⟩ :=
    Plain.parseDecimal?_eq_some_iff.mp (by decide +kernel)
  constructor
  · refine (hrange atLimit).2.1 _ _ (.text (.bare hat)) ?_ ?_
    · norm_num [Binary.Decimal.value, Scalar.limit]
    · refine lt_of_le_of_lt ?_ Scalar.float_limit_lt
      norm_num [Binary.Decimal.value, Scalar.limit]
  · refine (hrange belowLimit).1 _ _ (.text (.bare hbelow)) ?_
    norm_num [Binary.Decimal.value, Scalar.limit]

/-- A numeral that double precision cannot hold is stored as an infinity, also in a field of single
precision. -/
theorem overflowing_numeral_stored :
    Plain.Signed (Plain.DecimalNumeral · ⟨1, 9999⟩) "1e9999".toList false ∧
      Message.ofPlain schema TypeName.normalizedVertex.id (.object [("x", .string "1e9999")]) =
        .ok ⟨TypeName.normalizedVertex.id, [(1, .float 0x7f800000)]⟩ ∧
      single.isInfinite 0x7f800000 := by
  have hnumeral : Plain.DecimalNumeral "1e9999".toList ⟨1, 9999⟩ :=
    Plain.parseDecimal?_eq_some_iff.mp (by decide +kernel)
  exact ⟨.bare hnumeral, rfl, by decide⟩

end

end Protowire
