import Protowire.Proofs.Message.Local
import Protowire.Proofs.Plain.ToMessage
import Protowire.Proofs.Vision.Schema

/-!
Integers from plain form. What a plain value denotes for a field of integers or of an enum is said
without the reader of numbers (`Scalar.Denotes`). A value that denotes an integer in the range of
its field sets the field to this integer, and any other value is refused, whatever else the object
holds.
-/

namespace Protowire

/-- Decimal digits, at least one, and their value. -/
structure Plain.Numeral (cs : List Char) (k : Nat) : Prop where
  nonempty : cs ≠ []
  digits : ∀ c ∈ cs, c.isDigit
  value : Nat.ofDigits 10 (cs.reverse.map fun c => c.toNat - '0'.toNat) = k

/-- A numeral that may have a sign; only a signed integer may have a minus. -/
inductive Plain.SignedNumeral (signed : Bool) : List Char → Int → Prop
  | bare {cs : List Char} {k : Nat} (h : Numeral cs k) : SignedNumeral signed cs k
  | plus {cs : List Char} {k : Nat} (h : Numeral cs k) : SignedNumeral signed ('+' :: cs) k
  | minus {cs : List Char} {k : Nat} (hsigned : signed) (h : Numeral cs k) :
    SignedNumeral signed ('-' :: cs) (-k)

namespace Scalar

/-- The lowest and the highest number of an integer type. -/
def integerRange? : Scalar → Option (Int × Int)
  | int32 | sint32 | sfixed32 => some (-2 ^ 31, 2 ^ 31 - 1)
  | int64 | sint64 | sfixed64 => some (-2 ^ 63, 2 ^ 63 - 1)
  | uint32 | fixed32 => some (0, 2 ^ 32 - 1)
  | uint64 | fixed64 => some (0, 2 ^ 64 - 1)
  | _ => none

/-- The lowest and the highest number of an integer type or an enum. -/
def range? : Scalar → Option (Int × Int)
  | enum _ => some (-2 ^ 31, 2 ^ 31 - 1)
  | s => s.integerRange?

/-- A plain value denotes an integer: as a number, as a text in a field of integers, or as the name
of a value of the enum, of which the first one counts. -/
inductive Denotes : Scalar → Plain → Int → Prop
  | number {s : Scalar} {n : Int} : Denotes s (.int n) n
  | text {s : Scalar} {low high n : Int} {text : String}
    (hrange : s.integerRange? = some (low, high))
    (h : Plain.SignedNumeral (low < 0) text.toList n) : Denotes s (.string text) n
  | name {e : EnumType} {front back : List EnumValue} {value : EnumValue}
    (hvalues : e.values = front ++ value :: back) (hfirst : ∀ w ∈ front, w.name ≠ value.name) :
    Denotes (.enum e) (.string value.name) value.number.toInt

end Scalar

/-- The number in a field of integers or of an enum. -/
def Value.integer? : Value → Option Int
  | int32 n | enum n => some n.toInt
  | int64 n => some n.toInt
  | uint32 n => some n.toNat
  | uint64 n => some n.toNat
  | _ => none

/-- The errors for a value that is no integer in the range of the field. -/
def PlainError.NoInteger (error : PlainError) (field : String) : Prop :=
  error = .outOfRange field ∨ ∃ expected, error = .invalidValue field expected

variable {S : Schema} {t : TypeId} {m m₀ : Message} {f : Field} {s : Scalar} {e : EnumType}
  {key : String} {v : Plain} {w : Value} {cs : List Char} {signed : Bool} {low high n : Int}

/-! ### Texts of digits -/

namespace Binary

theorem digitsValue_append_singleton (cs : List Char) (c : Char) :
    digitsValue (cs ++ [c]) = 10 * digitsValue cs + (c.toNat - 48) := by
  simp [digitsValue]

theorem digitsValue_eq_ofDigits (cs : List Char) :
    digitsValue cs = Nat.ofDigits 10 (cs.reverse.map fun c => c.toNat - '0'.toNat) := by
  induction cs using List.reverseRecOn with
  | nil => rfl
  | append_singleton cs c ih =>
    rw [digitsValue_append_singleton, ih, List.reverse_append, List.reverse_singleton,
      List.singleton_append, List.map_cons, Nat.ofDigits_cons, Nat.add_comm]
    rfl

end Binary

namespace Plain

theorem digits?_eq_some_iff :
    parseInteger?.digits? cs = some n ↔ ∃ k : Nat, Numeral cs k ∧ n = k := by
  simp only [parseInteger?.digits?, Binary.digitsValue_eq_ofDigits]
  constructor
  · intro h
    split at h
    · rename_i hdigits
      simp only [Bool.and_eq_true, Bool.not_eq_true', List.isEmpty_eq_false_iff,
        List.all_eq_true] at hdigits
      exact ⟨_, ⟨hdigits.1, hdigits.2, rfl⟩, (Option.some.inj h).symm⟩
    · cases h
  · rintro ⟨k, h, rfl⟩
    have hdigits : (!cs.isEmpty && cs.all (·.isDigit)) = true := by
      simpa [h.nonempty] using h.digits
    rw [if_pos hdigits, h.value]

theorem Numeral.head_ne {c : Char} {k : Nat} (h : Numeral (c :: cs) k) : c ≠ '+' ∧ c ≠ '-' := by
  have hdigit := h.digits c List.mem_cons_self
  constructor <;> rintro rfl <;> cases hdigit

theorem parseInteger?_eq_some_iff {text : String} :
    parseInteger? signed text = some n ↔ SignedNumeral signed text.toList n := by
  rw [parseInteger?]
  split
  · rename_i cs htext
    rw [htext, digits?_eq_some_iff]
    constructor
    · rintro ⟨k, h, rfl⟩
      exact .plus h
    · intro h
      cases h with
      | bare h => exact absurd rfl h.head_ne.1
      | plus h => exact ⟨_, h, rfl⟩
  · rename_i cs htext
    rw [htext]
    constructor
    · intro h
      split at h
      · rename_i hsigned
        obtain ⟨_, hdigits, rfl⟩ := Option.map_eq_some_iff.mp h
        obtain ⟨k, hk, rfl⟩ := digits?_eq_some_iff.mp hdigits
        exact .minus hsigned hk
      · cases h
    · intro h
      cases h with
      | bare h => exact absurd rfl h.head_ne.2
      | minus hsigned h =>
        rw [if_pos hsigned, digits?_eq_some_iff.mpr ⟨_, h, rfl⟩]
        rfl
  · rename_i hplus hminus
    rw [digits?_eq_some_iff]
    constructor
    · rintro ⟨k, h, rfl⟩
      exact .bare h
    · intro h
      generalize text.toList = cs at h hplus hminus
      cases h with
      | bare h => exact ⟨_, h, rfl⟩
      | plus => exact absurd rfl (hplus _)
      | minus => exact absurd rfl (hminus _)

/-- An integer in a range, from a number or from a text with a sign that the range allows. -/
theorem integer?_eq_some_iff {low' high' : Int} (hrange : s.integerRange? = some (low', high'))
    (hsign : low' < 0 ↔ low < 0) :
    integer? low high v = some n ↔ s.Denotes v n ∧ low ≤ n ∧ n ≤ high := by
  have hfilter {n? : Option Int} (hdenotes : n? = some n ↔ s.Denotes v n) :
      (n?.filter fun n => low ≤ n ∧ n ≤ high) = some n ↔ s.Denotes v n ∧ low ≤ n ∧ n ≤ high := by
    rw [Option.filter_eq_some_iff, hdenotes, decide_eq_true_eq]
  refine hfilter ?_
  cases v with
  | int k =>
    constructor
    · rintro ⟨⟩
      exact .number
    · rintro ⟨⟩
      rfl
  | string text =>
    simp only [← hsign]
    rw [parseInteger?_eq_some_iff]
    constructor
    · exact .text hrange
    · intro h
      cases h with
      | text hrange' h =>
        rw [hrange, Option.some.injEq, Prod.mk.injEq] at hrange'
        rwa [hrange'.1]
      | name => cases hrange
  | _ => exact ⟨nofun, nofun⟩

end Plain

theorem EnumType.numberOf?_eq_some_iff {name : String} {number : Int32} :
    e.numberOf? name = some number ↔ ∃ front value back, e.values = front ++ value :: back ∧
      (∀ w ∈ front, w.name ≠ name) ∧ value.name = name ∧ value.number = number := by
  simp only [numberOf?, Option.map_eq_some_iff, List.find?_eq_some_iff_append]
  constructor
  · rintro ⟨value, ⟨hname, front, back, hvalues, hfirst⟩, hnumber⟩
    exact ⟨front, value, back, hvalues, by simpa using hfirst, by simpa using hname, hnumber⟩
  · rintro ⟨front, value, back, hvalues, hfirst, hname, hnumber⟩
    exact ⟨value, ⟨by simpa using hname, front, back, hvalues, by simpa using hfirst⟩, hnumber⟩

namespace Scalar

theorem denotes_name_iff {name : String} :
    (enum e).Denotes (.string name) n ↔ (e.numberOf? name).map Int32.toInt = some n := by
  rw [Option.map_eq_some_iff]
  simp only [EnumType.numberOf?_eq_some_iff]
  constructor
  · intro h
    cases h with
    | text hrange => cases hrange
    | name hvalues hfirst => exact ⟨_, ⟨_, _, _, hvalues, hfirst, rfl, rfl⟩, rfl⟩
  · rintro ⟨_, ⟨front, value, back, hvalues, hfirst, rfl, rfl⟩, rfl⟩
    exact .name hvalues hfirst

/-- What is read as an integer of a wide range is in the narrow one, or out of it, or nothing. -/
theorem narrowed (low high : Int) {wide? : Option Int} {low' high' : Int}
    (hwide : ∀ n, wide? = some n ↔ s.Denotes v n ∧ low' ≤ n ∧ n ≤ high') (hlow : low' ≤ low)
    (hhigh : high ≤ high') :
    (∃ n, wide? = some n ∧ s.Denotes v n ∧ low ≤ n ∧ n ≤ high) ∨
      (∀ n, s.Denotes v n → ¬(low ≤ n ∧ n ≤ high)) ∧
        (wide? = none ∨ ∃ k, wide? = some k ∧ (low' ≤ k ∧ k ≤ high') ∧ ¬(low ≤ k ∧ k ≤ high)) := by
  have hread {n : Int} (h : s.Denotes v n) (hn : low ≤ n ∧ n ≤ high) : wide? = some n :=
    (hwide n).mpr ⟨h, by omega⟩
  cases hwide? : wide? with
  | none =>
    refine .inr ⟨fun n h hn => ?_, .inl rfl⟩
    rw [hread h hn] at hwide?
    cases hwide?
  | some k =>
    obtain ⟨hk, hbounds⟩ := (hwide k).mp hwide?
    by_cases hin : low ≤ k ∧ k ≤ high
    · exact .inl ⟨k, rfl, hk, hin⟩
    · refine .inr ⟨fun n h hn => ?_, .inr ⟨k, rfl, hbounds, hin⟩⟩
      rw [hread h hn, Option.some.injEq] at hwide?
      exact hin (hwide? ▸ hn)

/-- What reading a value for a field called `name` comes to: an integer of the range that the value
denotes, or an error if it denotes none. -/
def ReadsInteger (s : Scalar) (low high : Int) (name : String) (v : Plain) : Prop :=
  (∃ n w, s.Denotes v n ∧ (low ≤ n ∧ n ≤ high) ∧ s.ofPlain name v = .ok w ∧ w.integer? = some n) ∨
    (∀ n, s.Denotes v n → ¬(low ≤ n ∧ n ≤ high)) ∧
      ∃ error, s.ofPlain name v = .error error ∧ error.NoInteger name

theorem readsInteger_signed (hrange : s.integerRange? = some (low, high)) (hsign : low < 0)
    (name : String) (v : Plain) : s.ReadsInteger low high name v := by
  have hwide (n : Int) : v.int64? = some n ↔ s.Denotes v n ∧ -2 ^ 63 ≤ n ∧ n ≤ 2 ^ 63 - 1 := by
    rw [Plain.int64?, Plain.integer?_eq_some_iff hrange (by simpa using hsign),
      Int64.toInt_minValue, Int64.toInt_maxValue]
  have hnarrow := narrowed low high hwide
  cases s <;> cases hrange
  case int32 | sint32 | sfixed32 =>
    obtain ⟨n, hread, hdenotes, hn⟩ | ⟨hnone, hread | ⟨k, hread, _, hout⟩⟩ :=
      hnarrow (by decide) (by decide)
    · refine .inl ⟨n, .int32 (.ofInt n), hdenotes, hn, ?_, ?_⟩
      · simp only [ofPlain, hread, Int32.toInt_minValue, Int32.toInt_maxValue, if_pos hn]
      · rw [Value.integer?, Int32.toInt_ofInt_of_le hn.1 (by omega)]
    · exact .inr ⟨hnone, .invalidValue name "an integer", by simp only [ofPlain, hread],
        .inr ⟨_, rfl⟩⟩
    · refine .inr ⟨hnone, .outOfRange name, ?_, .inl rfl⟩
      simp only [ofPlain, hread, Int32.toInt_minValue, Int32.toInt_maxValue, if_neg hout]
  case int64 | sint64 | sfixed64 =>
    obtain ⟨n, hread, hdenotes, hn⟩ | ⟨hnone, hread | ⟨k, _, hin, hout⟩⟩ :=
      hnarrow (by decide) (by decide)
    · refine .inl ⟨n, .int64 (.ofInt n), hdenotes, hn, ?_, ?_⟩
      · simp only [ofPlain, hread]
      · rw [Value.integer?, Int64.toInt_ofInt_of_le hn.1 (by omega)]
    · exact .inr ⟨hnone, .invalidValue name "an integer", by simp only [ofPlain, hread],
        .inr ⟨_, rfl⟩⟩
    -- the wide range is the range of the type, so nothing that is read is out of it
    · exact absurd hin hout
  case uint32 | fixed32 | uint64 | fixed64 => exact absurd hsign (by decide)

theorem readsInteger_unsigned (hrange : s.integerRange? = some (low, high)) (hsign : ¬low < 0)
    (name : String) (v : Plain) : s.ReadsInteger low high name v := by
  have hwide (n : Int) : v.uint64? = some n ↔ s.Denotes v n ∧ 0 ≤ n ∧ n ≤ 2 ^ 64 - 1 := by
    rw [Plain.uint64?, Plain.integer?_eq_some_iff hrange (by simpa using hsign)]
    rfl
  have hnarrow := narrowed low high hwide
  cases s <;> cases hrange
  case uint32 | fixed32 =>
    obtain ⟨n, hread, hdenotes, hn⟩ | ⟨hnone, hread | ⟨k, hread, hin, hout⟩⟩ :=
      hnarrow (by decide) (by decide)
    · have hlt : n < (UInt32.size : Int) := by simp only [UInt32.size]; omega
      refine .inl ⟨n, .uint32 n.toNat.toUInt32, hdenotes, hn, ?_, ?_⟩
      · simp only [ofPlain, hread, if_pos hlt]
      · rw [Value.integer?, UInt32.toNat_ofNat_of_lt' (by omega)]
        simp [hn.1]
    · exact .inr ⟨hnone, .invalidValue name "an unsigned integer", by simp only [ofPlain, hread],
        .inr ⟨_, rfl⟩⟩
    · have hge : ¬k < (UInt32.size : Int) := by simp only [UInt32.size]; omega
      refine .inr ⟨hnone, .outOfRange name, ?_, .inl rfl⟩
      simp only [ofPlain, hread, if_neg hge]
  case uint64 | fixed64 =>
    obtain ⟨n, hread, hdenotes, hn⟩ | ⟨hnone, hread | ⟨k, _, hin, hout⟩⟩ :=
      hnarrow (by decide) (by decide)
    · refine .inl ⟨n, .uint64 n.toNat.toUInt64, hdenotes, hn, ?_, ?_⟩
      · simp only [ofPlain, hread]
      · have hlt : n < (UInt64.size : Int) := by simp only [UInt64.size]; omega
        rw [Value.integer?, UInt64.toNat_ofNat_of_lt' (by omega)]
        simp [hn.1]
    · exact .inr ⟨hnone, .invalidValue name "an unsigned integer", by simp only [ofPlain, hread],
        .inr ⟨_, rfl⟩⟩
    · exact absurd hin hout
  case int32 | sint32 | sfixed32 | int64 | sint64 | sfixed64 => exact absurd (by decide) hsign

/-- An enum reads names as well as numbers, but no numerals. -/
theorem readsInteger_enum (e : EnumType) (name : String) (v : Plain) :
    (enum e).ReadsInteger (-2 ^ 31) (2 ^ 31 - 1) name v := by
  cases v with
  | string text =>
    cases hread : e.numberOf? text with
    | some k =>
      refine .inl ⟨k.toInt, .enum k, denotes_name_iff.mpr (by rw [hread]; rfl), ?_, ?_, rfl⟩
      · exact ⟨k.le_toInt, Int.le_sub_one_of_lt k.toInt_lt⟩
      · simp only [ofPlain, hread]
    | none =>
      refine .inr ⟨fun n h => ?_, .invalidValue name "an enum number or name", ?_, .inr ⟨_, rfl⟩⟩
      · rw [denotes_name_iff, hread] at h
        cases h
      · simp only [ofPlain, hread]
  | int k =>
    have hread : (Plain.int k).int64? = if -2 ^ 63 ≤ k ∧ k ≤ 2 ^ 63 - 1 then some k else none := by
      simp only [Plain.int64?, Plain.integer?, Option.filter_some, Int64.toInt_minValue,
        Int64.toInt_maxValue, decide_eq_true_eq]
    by_cases hk : -2 ^ 31 ≤ k ∧ k ≤ 2 ^ 31 - 1
    · refine .inl ⟨k, .enum (.ofInt k), .number, hk, ?_, ?_⟩
      · rw [if_pos (by omega)] at hread
        simp only [ofPlain, hread, Option.bind_some, Int32.toInt_minValue, Int32.toInt_maxValue,
          if_pos hk]
      · rw [Value.integer?, Int32.toInt_ofInt_of_le hk.1 (by omega)]
    · refine .inr ⟨fun n h => ?_, .invalidValue name "an enum number or name", ?_, .inr ⟨_, rfl⟩⟩
      · cases h
        exact hk
      · by_cases hwide : -2 ^ 63 ≤ k ∧ k ≤ 2 ^ 63 - 1
        · simp only [ofPlain, hread, if_pos hwide, Option.bind_some, Int32.toInt_minValue,
            Int32.toInt_maxValue, if_neg hk]
        · simp only [ofPlain, hread, if_neg hwide, Option.bind_none]
  | _ =>
    refine .inr ⟨fun n h => ?_, .invalidValue name "an enum number or name", rfl, .inr ⟨_, rfl⟩⟩
    cases h

theorem readsInteger (hrange : s.range? = some (low, high)) (name : String) (v : Plain) :
    s.ReadsInteger low high name v := by
  rw [range?.eq_def] at hrange
  split at hrange
  · cases hrange
    exact readsInteger_enum _ name v
  · by_cases hsign : low < 0
    · exact readsInteger_signed hrange hsign name v
    · exact readsInteger_unsigned hrange hsign name v

/-- A value denotes at most one integer. -/
theorem Denotes.unique {k : Int} (hn : s.Denotes v n) (hk : s.Denotes v k) : n = k := by
  cases hn with
  | number =>
    cases hk
    rfl
  | text hrange h =>
    cases hk with
    | text hrange' h' =>
      rw [hrange, Option.some.injEq, Prod.mk.injEq] at hrange'
      rw [← hrange'.1, ← Plain.parseInteger?_eq_some_iff] at h'
      rw [← Plain.parseInteger?_eq_some_iff, h'] at h
      exact (Option.some.inj h).symm
    | name => cases hrange
  | name hvalues hfirst =>
    have hname := denotes_name_iff.mp (.name hvalues hfirst)
    rw [denotes_name_iff.mp hk] at hname
    exact (Option.some.inj hname).symm

end Scalar

/-! ### Objects -/

namespace Value

/-- The default among the integers is zero. -/
theorem isDefault_iff_of_integer? (h : w.integer? = some n) : w.isDefault ↔ n = 0 := by
  cases w <;> cases h <;> rw [isDefault, decide_eq_true_eq]
  case int32 k | enum k => rw [← Int32.toInt_inj]; rfl
  case int64 k => rw [← Int64.toInt_inj]; rfl
  case uint32 k => rw [← UInt32.toNat_inj]; simp
  case uint64 k => rw [← UInt64.toNat_inj]; simp

end Value

/-- A field of integers holds what is put into it, unless this is a zero that does not differ from
being unset. -/
theorem Message.get?_put_integer (hfield : (S.type m.type).field? f.number = some f)
    (hkind : f.kind = .scalar s) (hw : w.integer? = some n) :
    (m.put S f.number w).get? f.number = if n = 0 ∧ f.oneof = none then none else some w := by
  rw [put, hfield, m.changed_store S f w f.number, if_pos rfl]
  have hzero := Value.isDefault_iff_of_integer? hw
  have htracks : f.tracksPresence = f.oneof.isSome := by
    simp [Field.tracksPresence, hkind, Kind.isMessage]
  rw [htracks]
  congr 1
  rw [Bool.and_eq_true, Bool.not_eq_true', Option.isSome_eq_false_iff, Option.isNone_iff_eq_none,
    hzero, and_comm]

/-- A field of integers or of an enum takes what the plain value denotes. If this is an integer in
the field's range, the field is set to it, or left unset if it is a zero outside a oneof; if not,
the object is refused. Other entries, in front or behind, do not matter for it. -/
theorem plain_integer_exact {front : List (String × Plain)}
    (hfront : takeEntries S (Message.empty t) front = .ok m₀) (hkey : key ≠ Plain.typeKey)
    (hnamed : (S.type t).fieldNamed? key = some f) (hfield : (S.type t).field? f.number = some f)
    (hsingular : f.repeated = false) (hkind : f.kind = .scalar s)
    (hrange : s.range? = some (low, high)) (hnull : v.isNull = false) :
    (∀ n, (∃ m, Message.ofPlain S t (.object (front ++ [(key, v)])) = .ok m ∧
        m.getD f.number Value.integer? 0 = n) ↔ s.Denotes v n ∧ low ≤ n ∧ n ≤ high) ∧
      (∀ n, s.Denotes v n → low ≤ n → n ≤ high → ∃ w, s.accepts w ∧ w.integer? = some n ∧
        (m₀.put S f.number w).get? f.number =
          (if n = 0 ∧ f.oneof = none then none else some w) ∧
        ∀ rest, Message.ofPlain S t (.object (front ++ (key, v) :: rest)) =
          takeEntries S (m₀.put S f.number w) rest) ∧
      ((∀ n, s.Denotes v n → ¬(low ≤ n ∧ n ≤ high)) → ∃ error, error.NoInteger f.name ∧
        ∀ rest, Message.ofPlain S t (.object (front ++ (key, v) :: rest)) = .error error) := by
  have htype : m₀.type = t := type_takeEntries hfront
  rw [← htype] at hnamed hfield
  have hread (rest : List (String × Plain)) :
      Message.ofPlain S t (.object (front ++ (key, v) :: rest)) =
        ((s.ofPlain f.name v).map (m₀.put S f.number)).bind fun m => takeEntries S m rest := by
    rw [Message.ofPlain, takeEntries_append, hfront, Except.bind, takeEntries_cons,
      takeEntries_singular hkey hnamed hnull hsingular, Field.valueOfPlain_scalar hkind]
  obtain ⟨k, w, hk, hin, hvalue, hw⟩ | ⟨hnone, error, hvalue, herror⟩ :=
    Scalar.readsInteger hrange f.name v
  · have hget := Message.get?_put_integer hfield hkind hw
    have hshown : (m₀.put S f.number w).getD f.number Value.integer? 0 = k := by
      rw [Message.getD, hget]
      split
      · rename_i hzero
        exact hzero.1.symm
      · rw [Option.bind_some, hw, Option.getD_some]
    simp only [hread, hvalue]
    refine ⟨fun n => ⟨?_, ?_⟩, fun n hn _ _ => ?_, fun h => absurd hin (h k hk)⟩
    · rintro ⟨m, hm, rfl⟩
      cases hm
      exact hshown ▸ ⟨hk, hin⟩
    · rintro ⟨hn, _⟩
      exact ⟨_, rfl, hshown.trans (hk.unique hn)⟩
    · obtain rfl := hk.unique hn
      exact ⟨w, Scalar.accepts_of_ofPlain hvalue, hw, hget, fun _ => rfl⟩
  · simp only [hread, hvalue]
    refine ⟨fun n => ⟨?_, fun h => absurd h.2 (hnone n h.1)⟩,
      fun n hn hlow hhigh => absurd ⟨hlow, hhigh⟩ (hnone n hn),
      fun _ => ⟨error, herror, fun _ => rfl⟩⟩
    rintro ⟨m, hm, _⟩
    cases hm

section

open Vision

/-- The lowest number of 32 bits is read from a text, and the one behind the highest is refused. -/
theorem vertex_at_lowest :
    (∃ x, Message.ofPlain schema TypeName.vertex.id
        (.object [("y", .int 7), ("x", .string "-2147483648")]) = .ok x ∧
      x.getD 1 Value.integer? 0 = -2147483648) ∧
    ∃ error : PlainError, error.NoInteger "x" ∧ Message.ofPlain schema TypeName.vertex.id
      (.object [("y", .int 7), ("x", .string "+2147483648")]) = .error error := by
  have hfront : takeEntries schema (Message.empty TypeName.vertex.id) [("y", .int 7)] =
      .ok ⟨TypeName.vertex.id, [(2, .int32 7)]⟩ := by
    cbv
  have hnamed : (schema.type TypeName.vertex.id).fieldNamed? "x" = some (.one 1 "x" .int32) := by
    cbv
  have hfield : (schema.type TypeName.vertex.id).field? 1 = some (.one 1 "x" .int32) := by cbv
  have hdigits : Plain.Numeral ['2', '1', '4', '7', '4', '8', '3', '6', '4', '8'] 2147483648 :=
    ⟨by simp, List.all_eq_true.mp rfl, rfl⟩
  have hread {v : Plain} (hnull : v.isNull = false) :=
    plain_integer_exact (v := v) hfront (by decide : "x" ≠ Plain.typeKey) hnamed hfield rfl rfl rfl
      hnull
  refine ⟨((hread rfl).1 _).mpr ⟨.text rfl (.minus (by decide) hdigits), by decide, by decide⟩, ?_⟩
  have hplus : Scalar.int32.Denotes (.string "+2147483648") 2147483648 :=
    .text rfl (.plus hdigits)
  obtain ⟨error, herror, hrefused⟩ := (hread (v := .string "+2147483648") rfl).2.2 fun n hn => by
    rw [hn.unique hplus]
    decide
  exact ⟨error, herror, hrefused []⟩

end

end Protowire
