import Protowire.Proofs.Binary.Round
import Protowire.Proofs.FieldMap
import Protowire.Proofs.Message.Merge
import Protowire.Proofs.Plain.ToMessage
import Protowire.Proofs.Text.Base64
import Protowire.Proofs.Vision.Schema

/-!
A canonical message comes back from its plain form, except that a NaN comes back as the positive
quiet one. Every declared field has an entry of its own there, and each of them is read for the
field that it was written for; so a message is rebuilt field by field in the order of their
declaration. What is unset is shown as null or as a default and stays unset. The induction is on the
messages in a message.
-/

namespace Protowire

open Binary (single double)

mutual

/-- A message with the positive quiet NaN in place of every NaN. -/
def Message.quieted : Message → Message
  | ⟨t, fields⟩ => ⟨t, quietedFields fields⟩

def Value.quieted : Value → Value
  | .float bits => .float (single.quiet bits.toNat).toUInt32
  | .double bits => .double (double.quiet bits.toNat).toUInt64
  | .message m => .message m.quieted
  | .list items => .list (quietedItems items)
  | v => v

def quietedFields : List (Nat × Value) → List (Nat × Value)
  | [] => []
  | (n, v) :: rest => (n, v.quieted) :: quietedFields rest

def quietedItems : List Value → List Value
  | [] => []
  | v :: rest => v.quieted :: quietedItems rest

end

/-- No name spells two fields, and none is the key of the type's name. -/
structure MessageType.SpelledApart (T : MessageType) : Prop where
  distinct : ∀ f ∈ T.fields, ∀ g ∈ T.fields, f ≠ g → ∀ name ∈ f.spellings, name ∉ g.spellings
  reserved : ∀ f ∈ T.fields, Plain.typeKey ∉ f.spellings

def Schema.SpelledApart (S : Schema) : Prop := ∀ T ∈ S.types.toList, T.SpelledApart

/-- No two fields have one plain key, and none has the key of the type's name. -/
structure MessageType.KeyedApart (T : MessageType) : Prop where
  distinct : (T.fields.map Field.plainKey).Nodup
  reserved : Plain.typeKey ∉ T.fields.map Field.plainKey

instance (T : MessageType) : Decidable T.SpelledApart :=
  decidable_of_iff ((∀ f ∈ T.fields, ∀ g ∈ T.fields, f ≠ g →
      ∀ name ∈ f.spellings, name ∉ g.spellings) ∧ ∀ f ∈ T.fields, Plain.typeKey ∉ f.spellings)
    ⟨fun ⟨h₁, h₂⟩ => ⟨h₁, h₂⟩, fun ⟨h₁, h₂⟩ => ⟨h₁, h₂⟩⟩

instance (S : Schema) : Decidable S.SpelledApart :=
  inferInstanceAs (Decidable (∀ T ∈ S.types.toList, T.SpelledApart))

instance (T : MessageType) : Decidable T.KeyedApart :=
  decidable_of_iff ((T.fields.map Field.plainKey).Nodup ∧
    Plain.typeKey ∉ T.fields.map Field.plainKey) ⟨fun ⟨h₁, h₂⟩ => ⟨h₁, h₂⟩, fun ⟨h₁, h₂⟩ => ⟨h₁, h₂⟩⟩

variable {S : Schema} {naming : Bool} {m : Message} {f : Field} {n : Nat} {v : Value}

/-! ### Numbers -/

namespace Plain

theorem integer?_int {low high k : Int} (hlow : low ≤ k) (hhigh : k ≤ high) :
    integer? low high (.int k) = some k := by
  simp [integer?, hlow, hhigh]

theorem int64?_toInt32 (k : Int32) : (Plain.int k.toInt).int64? = some k.toInt := by
  have hlow := k.le_toInt
  have hhigh := k.toInt_lt
  apply integer?_int
  · rw [Int64.toInt_minValue]
    omega
  · rw [Int64.toInt_maxValue]
    omega

theorem int64?_toInt64 (k : Int64) : (Plain.int k.toInt).int64? = some k.toInt :=
  integer?_int k.minValue_le_toInt k.toInt_le

theorem uint64?_natCast {k : Nat} (h : k < UInt64.size) :
    (Plain.int k).uint64? = some (k : Int) :=
  integer?_int (Int.natCast_nonneg k) (by omega)

/-- A number of double precision is read as what was shown. -/
theorem double?_ofDouble {bits : Nat} (h : bits < 2 ^ 64) :
    (Plain.ofDouble bits).double? = some (double.quiet bits) := by
  have hwords : double.parse? "NaN" = some double.quietNaN ∧
      double.parse? "Infinity" = some (double.withSign false double.infinity) ∧
      double.parse? "-Infinity" = some (double.withSign true double.infinity) := by
    decide
  have hsign : bits < 2 * double.signBit := h
  rw [ofDouble, Binary.Format.quiet]
  split
  · exact hwords.1
  · split
    · rename_i hinfinite
      have hmagnitude : double.magnitude bits = double.infinity := by
        simpa [Binary.Format.isInfinite] using hinfinite
      have hbits := Binary.Format.withSign_magnitude hsign
      rw [hmagnitude] at hbits
      split
      · rename_i hnegative
        rw [hnegative] at hbits
        rw [← hbits]
        exact hwords.2.2
      · rename_i hnegative
        rw [Bool.not_eq_true] at hnegative
        rw [hnegative] at hbits
        rw [← hbits]
        exact hwords.2.1
    · rw [double?]
      congr 1
      exact Nat.mod_eq_of_lt h

end Plain

/-! ### Scalar values -/

/-- A scalar value is read back from its plain form, whatever the field is called. -/
theorem Scalar.ofPlain_toPlain {s : Scalar} (h : s.accepts v) (name : String) :
    s.ofPlain name (v.toPlain S naming) = .ok v.quieted := by
  cases s <;> cases v <;> first | cases h; done | skip
  case bool.bool | string.string => rfl
  case int32.int32 k | sint32.int32 k | sfixed32.int32 k =>
    have hrange : Int32.minValue.toInt ≤ k.toInt ∧ k.toInt ≤ Int32.maxValue.toInt :=
      ⟨k.minValue_le_toInt, k.toInt_le⟩
    simp only [ofPlain, Value.toPlain, Plain.int64?_toInt32, hrange, and_self, ↓reduceIte,
      Int32.ofInt_toInt, Value.quieted]
  case enum.enum k =>
    have hrange : Int32.minValue.toInt ≤ k.toInt ∧ k.toInt ≤ Int32.maxValue.toInt :=
      ⟨k.minValue_le_toInt, k.toInt_le⟩
    simp only [ofPlain, Value.toPlain, Plain.int64?_toInt32, Option.bind_some, hrange, and_self,
      ↓reduceIte, Int32.ofInt_toInt, Value.quieted]
  case int64.int64 k | sint64.int64 k | sfixed64.int64 k =>
    simp only [ofPlain, Value.toPlain, Plain.int64?_toInt64, Int64.ofInt_toInt, Value.quieted]
  case uint32.uint32 k | fixed32.uint32 k =>
    have hlt : k.toNat < UInt32.size := k.toNat_lt
    have hword := Plain.uint64?_natCast (k := k.toNat) (Nat.lt_trans hlt (by decide))
    have hrange : (k.toNat : Int) < UInt32.size := by exact_mod_cast hlt
    simp only [ofPlain, Value.toPlain, hword, hrange, ↓reduceIte, Int.toNat_natCast, Nat.toUInt32,
      UInt32.ofNat_toNat, Value.quieted]
  case uint64.uint64 k | fixed64.uint64 k =>
    have hword := Plain.uint64?_natCast (k := k.toNat) k.toNat_lt
    simp only [ofPlain, Value.toPlain, hword, Int.toNat_natCast, Nat.toUInt64, UInt64.ofNat_toNat,
      Value.quieted]
  case bytes.bytes bs =>
    simp only [ofPlain, Value.toPlain, String.toList_ofList, Text.Base64.decode_of_encode,
      Value.quieted]
  case double.double bits =>
    simp only [ofPlain, Value.toPlain, Plain.double?_ofDouble bits.toNat_lt, Value.quieted]
  case float.float bits =>
    have hwide : single.convert Binary.double bits.toNat < 2 ^ 64 :=
      Binary.Format.convert_lt (by decide) _
    obtain ⟨hnarrow, hfinite⟩ :=
      Binary.Format.convert_quiet (show bits.toNat < 2 * single.signBit from bits.toNat_lt)
    simp only [ofPlain, Value.toPlain, Plain.double?_ofDouble hwide, hnarrow, Value.quieted]
    split
    · rename_i hrange
      rw [Bool.and_eq_true, Bool.not_eq_true'] at hrange
      -- what is shown as finite is finite in single precision too
      rw [hfinite hrange.1] at hrange
      cases hrange.2
    · rfl

/-! ### What is kept of a message -/

namespace Value

theorem isDefault_quieted (v : Value) : v.quieted.isDefault = v.isDefault := by
  cases v with
  | float bits =>
    have hword : (single.quiet bits.toNat).toUInt32.toNat = single.quiet bits.toNat :=
      Nat.mod_eq_of_lt (Binary.Format.quiet_lt (by decide) bits.toNat_lt)
    rw [quieted, isDefault, isDefault, hword, Binary.Format.isZero_quiet (by decide)]
  | double bits =>
    have hword : (Binary.double.quiet bits.toNat).toUInt64.toNat = Binary.double.quiet bits.toNat :=
      Nat.mod_eq_of_lt (Binary.Format.quiet_lt (by decide) bits.toNat_lt)
    rw [quieted, isDefault, isDefault, hword, Binary.Format.isZero_quiet (by decide)]
  | list items => cases items <;> rfl
  | _ => rfl

end Value

theorem quietedItems_eq_map (items : List Value) :
    quietedItems items = items.map Value.quieted := by
  induction items with
  | nil => rfl
  | cons v items ih => rw [quietedItems, List.map_cons, ih]

theorem quietedFields_eq_map (fields : FieldMap Value) :
    quietedFields fields = fields.map fun p => (p.1, p.2.quieted) := by
  induction fields with
  | nil => rfl
  | cons p fields ih => rw [quietedFields, List.map_cons, ih]

theorem plainFields_eq_map (fields : FieldMap Value) :
    plainFields S naming fields = fields.map fun p => (p.1, p.2.toPlain S naming) := by
  induction fields with
  | nil => rfl
  | cons p fields ih => rw [plainFields, List.map_cons, ih]

theorem FieldMap.get?_map {α β : Type} (g : α → β) (fields : FieldMap α) (k : Nat) :
    FieldMap.get? (fields.map fun p => (p.1, g p.2)) k = (fields.get? k).map g := by
  induction fields with
  | nil => rfl
  | cons p fields ih =>
    obtain ⟨j, a⟩ := p
    rw [List.map_cons, get?_cons, get?_cons, ih]
    split <;> rfl

theorem FieldMap.Ascending.map {α β : Type} {fields : FieldMap α} (h : fields.Ascending)
    (g : α → β) : FieldMap.Ascending (fields.map fun p => (p.1, g p.2)) :=
  List.pairwise_map.mpr h

namespace Message

theorem toPlain_eq (S : Schema) (naming : Bool) (m : Message) : m.toPlain S naming =
    (S.type m.type).plainObject naming (plainFields S naming m.fields) := by
  cases m
  rfl

theorem get?_plainFields (S : Schema) (naming : Bool) (m : Message) (k : Nat) :
    FieldMap.get? (plainFields S naming m.fields) k =
      (m.get? k).map (Value.toPlain S naming) := by
  rw [plainFields_eq_map]
  exact FieldMap.get?_map _ _ _

@[simp] theorem type_quieted (m : Message) : m.quieted.type = m.type := by
  cases m
  rfl

theorem fields_quieted (m : Message) :
    m.quieted.fields = m.fields.map fun p => (p.1, p.2.quieted) := by
  cases m
  exact quietedFields_eq_map _

theorem get?_quieted (m : Message) (k : Nat) :
    m.quieted.get? k = (m.get? k).map Value.quieted := by
  rw [get?, fields_quieted]
  exact FieldMap.get?_map _ _ k

end Message

/-! ### Keys -/

namespace Plain

theorem putEntry_of_not_mem {entries : List (String × Plain)} {key : String}
    (h : key ∉ entries.map Prod.fst) (p : Plain) :
    putEntry entries key p = entries ++ [(key, p)] := by
  induction entries with
  | nil => rfl
  | cons e entries ih =>
    rw [List.map_cons, List.mem_cons, not_or] at h
    rw [putEntry, if_neg (fun heq => h.1 heq.symm), ih h.2, List.cons_append]

theorem foldl_putEntry {front entries : List (String × Plain)}
    (h : ((front ++ entries).map Prod.fst).Nodup) :
    entries.foldl (fun acc (k, v) => putEntry acc k v) front = front ++ entries := by
  induction entries generalizing front with
  | nil => rw [List.foldl_nil, List.append_nil]
  | cons e entries ih =>
    obtain ⟨key, p⟩ := e
    have hsplit := (List.append_cons front (key, p) entries).symm
    have hnew : key ∉ front.map Prod.fst := by
      rw [List.map_append, List.map_cons, List.nodup_append] at h
      intro hmem
      exact h.2.2 _ hmem _ List.mem_cons_self rfl
    simp only [List.foldl_cons, putEntry_of_not_mem hnew]
    rw [ih (hsplit ▸ h), hsplit]

/-- Entries with different keys stand in the object as they were written. -/
theorem ofEntries_of_nodup {entries : List (String × Plain)} (h : (entries.map Prod.fst).Nodup) :
    ofEntries entries = .object entries := by
  rw [ofEntries, foldl_putEntry (by simpa using h), List.nil_append]

end Plain

namespace MessageType

theorem plainKey_mem_spellings (f : Field) : f.plainKey ∈ f.spellings := by
  simp [Field.spellings]

/-- Looking up a spelling of a field finds the field. -/
theorem SpelledApart.fieldNamed?_of_mem {T : MessageType} (hT : T.SpelledApart)
    (hf : f ∈ T.fields) {key : String} (hkey : key ∈ f.spellings) :
    T.fieldNamed? key = some f := by
  obtain ⟨g, hg⟩ : ∃ g, T.fieldNamed? key = some g := by
    rw [← Option.isSome_iff_exists, fieldNamed?, List.find?_isSome]
    exact ⟨f, hf, by simpa using hkey⟩
  have hspelled : key ∈ g.spellings := by simpa using List.find?_some hg
  rw [hg]
  by_contra hne
  exact hT.distinct f hf g (mem_of_fieldNamed? hg) (fun heq => hne (by rw [heq])) _ hkey hspelled

theorem SpelledApart.fieldNamed?_plainKey {T : MessageType} (hT : T.SpelledApart)
    (hf : f ∈ T.fields) : T.fieldNamed? f.plainKey = some f :=
  hT.fieldNamed?_of_mem hf (plainKey_mem_spellings f)

theorem SpelledApart.plainKey_ne {T : MessageType} (hT : T.SpelledApart) (hf : f ∈ T.fields) :
    f.plainKey ≠ Plain.typeKey := by
  intro heq
  exact hT.reserved f hf (heq ▸ plainKey_mem_spellings f)

theorem SpelledApart.keyedApart_of_nodup {T : MessageType} (hT : T.SpelledApart)
    (hfields : T.fields.Nodup) : T.KeyedApart := by
  refine ⟨List.Nodup.map_on (fun f hf g hg heq => ?_) hfields, ?_⟩
  · have hfound := hT.fieldNamed?_plainKey hf
    rw [heq, hT.fieldNamed?_plainKey hg] at hfound
    exact (Option.some.inj hfound).symm
  · intro hmem
    obtain ⟨f, hf, heq⟩ := List.mem_map.mp hmem
    exact hT.plainKey_ne hf heq

theorem SpelledApart.keyedApart {T : MessageType} (hT : T.SpelledApart)
    (hnumbers : (T.fields.map (·.number)).Nodup) : T.KeyedApart :=
  hT.keyedApart_of_nodup (List.Nodup.of_map _ hnumbers)

/-- The entries of the plain object of a message, one after the other. -/
def plainEntries (T : MessageType) (naming : Bool) (stored : FieldMap Plain) :
    List (String × Plain) :=
  (if naming then [(Plain.typeKey, Plain.string T.fullName)] else []) ++
    T.fields.map fun f => (f.plainKey, f.plainValue (stored.get? f.number))

namespace KeyedApart

theorem nodup_keys {T : MessageType} (hT : T.KeyedApart) (naming : Bool) (stored : FieldMap Plain) :
    ((T.plainEntries naming stored).map Prod.fst).Nodup := by
  have hkeys : (T.fields.map fun f => (f.plainKey, f.plainValue (stored.get? f.number))).map
      Prod.fst = T.fields.map Field.plainKey := by
    rw [List.map_map]
    rfl
  rw [plainEntries, List.map_append, hkeys]
  cases naming with
  | false => exact hT.distinct
  | true => exact List.nodup_cons.mpr ⟨hT.reserved, hT.distinct⟩

/-- The plain object of a message is made of the entries as they are. -/
theorem plainObject_eq {T : MessageType} (hT : T.KeyedApart) (naming : Bool)
    (stored : FieldMap Plain) : T.plainObject naming stored = .object (T.plainEntries naming stored) :=
  Plain.ofEntries_of_nodup (hT.nodup_keys naming stored)

end KeyedApart

end MessageType

/-! ### Values -/

theorem Value.isNull_toPlain (v : Value) : (v.toPlain S naming).isNull = false := by
  cases v with
  | float bits | double bits =>
    rw [toPlain, Plain.ofDouble]
    split
    · rfl
    · split <;> rfl
  | message x =>
    cases x
    rfl
  | _ => rfl

/-- A message comes back from its plain form, with quiet NaNs. -/
def Message.Returns (S : Schema) (naming : Bool) (x : Message) : Prop :=
  Message.ofPlain S x.type (x.toPlain S naming) = .ok x.quieted

theorem valueOfPlain_toPlain {T : MessageType} (hS : S.WellFormed)
    (hT : T.WellFormed S.types.size) (hf : f ∈ T.fields) (haccepts : f.kind.accepts S v)
    (hcanonical : v.Canonical S) (hreturns : ∀ x ∈ v.messages, x.Returns S naming) :
    f.valueOfPlain S (v.toPlain S naming) = .ok v.quieted := by
  cases hkind : f.kind with
  | scalar s =>
    rw [hkind] at haccepts
    rw [Field.valueOfPlain_scalar hkind]
    exact Scalar.ofPlain_toPlain haccepts f.name
  | message t =>
    obtain ⟨x, rfl⟩ := Field.exists_message_of_accepts hkind haccepts
    have hx : x ∈ (Value.message x).messages := List.mem_singleton.mpr rfl
    have htype := (hcanonical x hx).type_eq hS hT hf hkind haccepts
    have hback := hreturns x hx
    rw [Message.Returns, htype] at hback
    rw [Value.toPlain, Field.valueOfPlain_message hkind, hback]
    rfl

theorem valuesOfItems_toPlain {T : MessageType} {items : List Value} (hS : S.WellFormed)
    (hT : T.WellFormed S.types.size) (hf : f ∈ T.fields)
    (hitems : ∀ v ∈ items,
      f.kind.accepts S v ∧ v.Canonical S ∧ ∀ x ∈ v.messages, x.Returns S naming) :
    f.valuesOfItems S (plainItems S naming items) = .ok (quietedItems items) := by
  induction items with
  | nil => rfl
  | cons v items ih =>
    obtain ⟨⟨haccepts, hcanonical, hreturns⟩, hothers⟩ := List.forall_mem_cons.mp hitems
    rw [plainItems, Field.valuesOfItems, valueOfPlain_toPlain hS hT hf haccepts hcanonical hreturns,
      ih hothers]
    rfl

/-- What an unset scalar shows is the plain form of its default. -/
theorem Field.plainDefault_scalar (S : Schema) (naming : Bool) {s : Scalar}
    (hkind : f.kind = .scalar s) (hsingular : f.repeated = false) (hgroup : f.oneof = none) :
    f.plainDefault = s.default.toPlain S naming := by
  simp only [plainDefault, hsingular, hgroup, hkind, Option.isSome_none, Bool.false_eq_true,
    ↓reduceIte]
  cases s <;> rfl

theorem Scalar.default_quieted (s : Scalar) :
    s.default.quieted = s.default ∧ s.default.isDefault := by
  cases s <;> exact ⟨by rfl, by rfl⟩

/-- An unset field shows an empty array, null or the default of its scalar type. -/
theorem Field.plainDefault_singular (S : Schema) (naming : Bool) (hsingular : f.repeated = false) :
    f.plainDefault = .null ∨
      ∃ s, f.kind = .scalar s ∧ f.oneof = none ∧ f.plainDefault = s.default.toPlain S naming := by
  cases hgroup : f.oneof with
  | some i => exact .inl (by simp [plainDefault, hsingular, hgroup])
  | none =>
    cases hkind : f.kind with
    | message t => exact .inl (by simp [plainDefault, hsingular, hgroup, hkind])
    | scalar s => exact .inr ⟨s, rfl, rfl, plainDefault_scalar S naming hkind hsingular hgroup⟩

/-! ### Field by field -/

section

variable {acc : Message} {rest : List (String × Plain)} {p : Plain}

theorem takeEntries_array {items : List Plain} {vs : List Value}
    (hspelled : (S.type acc.type).SpelledApart) (hf : f ∈ (S.type acc.type).fields)
    (hrepeated : f.repeated) (hitems : f.valuesOfItems S items = .ok vs) :
    takeEntries S acc ((f.plainKey, .array items) :: rest) =
      takeEntries S (acc.putItems S f.number vs) rest := by
  have hvalues : f.valuesOfPlain S (.array items) = .ok vs := hitems
  have hnamed := hspelled.fieldNamed?_plainKey hf
  rw [takeEntries_cons, takeEntries_repeated (hspelled.plainKey_ne hf) hnamed rfl hrepeated,
    hvalues]
  rfl

theorem takeEntries_value (hspelled : (S.type acc.type).SpelledApart)
    (hf : f ∈ (S.type acc.type).fields) (hsingular : f.repeated = false) (hp : p.isNull = false)
    (hvalue : f.valueOfPlain S p = .ok v) :
    takeEntries S acc ((f.plainKey, p) :: rest) =
      takeEntries S (acc.put S f.number v) rest := by
  have hnamed := hspelled.fieldNamed?_plainKey hf
  rw [takeEntries_cons, takeEntries_singular (hspelled.plainKey_ne hf) hnamed hp hsingular, hvalue]
  rfl

theorem Message.clear_of_get?_eq_none (h : acc.get? n = none) : acc.clear n = acc := by
  have hget : FieldMap.get? acc.fields n = none := h
  rw [clear, FieldMap.erase_eq_eraseAll, FieldMap.eraseAll_of_get?_eq_none (by simpa using hget),
    eta]

/-- What an unset field shows leaves it unset. -/
theorem takeEntries_default (hS : S.WellFormed) (hspelled : (S.type acc.type).SpelledApart)
    (hf : f ∈ (S.type acc.type).fields) (hunset : acc.get? f.number = none) :
    takeEntries S acc ((f.plainKey, f.plainDefault) :: rest) = takeEntries S acc rest := by
  cases hrepeated : f.repeated with
  | true =>
    have hshown : f.plainDefault = .array [] := by
      simp only [Field.plainDefault, hrepeated, ↓reduceIte]
    have hvalues : f.valuesOfItems S [] = .ok [] := rfl
    rw [hshown, takeEntries_array hspelled hf hrepeated hvalues]
    simp only [Message.putItems, List.isEmpty_nil, ↓reduceIte,
      Message.clear_of_get?_eq_none hunset]
  | false =>
    rcases Field.plainDefault_singular S false hrepeated with
      hnull | ⟨s, hkind, hgroup, hshown⟩
    · rw [hnull, takeEntries_null (hspelled.plainKey_ne hf) (hspelled.fieldNamed?_plainKey hf) rfl]
    · obtain ⟨hquieted, hdefault⟩ := s.default_quieted
      have hvalue : f.valueOfPlain S (s.default.toPlain S false) = .ok s.default := by
        rw [Field.valueOfPlain_scalar hkind, Scalar.ofPlain_toPlain s.accepts_default, hquieted]
      rw [hshown, takeEntries_value hspelled hf hrepeated (Value.isNull_toPlain _) hvalue]
      -- the default of a field that is in no group clears nothing but the field
      have hfield := (hS.type acc.type).field?_number hf
      have hrivals : (S.type acc.type).rivals f = [] := by simp [MessageType.rivals, hgroup]
      have htracks : f.tracksPresence = false := by
        simp [Field.tracksPresence, hgroup, hkind, Kind.isMessage]
      have hnone : acc.clearAll [] = acc := by
        rw [Message.clearAll, FieldMap.eraseAll_of_get?_eq_none (by simp), Message.eta]
      simp only [Message.put, hfield, Message.store, hrivals, hnone, htracks, hdefault,
        Bool.not_false, Bool.and_self, ↓reduceIte, Message.clear_of_get?_eq_none hunset]

/-- What a set field shows sets it to the value that it shows. -/
theorem takeEntries_stored (hS : S.WellFormed) (hm : m.Canonical S)
    (hspelled : (S.type m.type).SpelledApart) (hf : f ∈ (S.type m.type).fields)
    (hget : m.get? f.number = some v) (hreturns : ∀ x ∈ v.messages, x.Returns S naming)
    (htype : acc.type = m.type) (hpart : ∀ k, m.get? k = none → acc.get? k = none) :
    takeEntries S acc ((f.plainKey, f.plainValue (some (v.toPlain S naming))) :: rest) =
      takeEntries S (acc.insert f.number v.quieted) rest := by
  have hT := hS.type m.type
  have hfield := hT.field?_number hf
  have hcanonical := hm.value hget
  rw [← htype] at hspelled
  have hf' : f ∈ (S.type acc.type).fields := htype ▸ hf
  cases hm.holds hfield hget with
  | one hsingular haccepts hpresence =>
    have hvalue := valueOfPlain_toPlain hS hT hf haccepts hcanonical hreturns
    have hshown : f.plainValue (some (v.toPlain S naming)) = v.toPlain S naming := by
      simp only [Field.plainValue, hsingular, Bool.false_eq_true, ↓reduceIte]
    rw [hshown, takeEntries_value hspelled hf' hsingular (Value.isNull_toPlain v) hvalue]
    have hrivals : acc.clearAll ((S.type acc.type).rivals f) = acc := by
      have hunset : ∀ k ∈ (S.type m.type).rivals f, FieldMap.get? acc.fields k = none := by
        intro k hk
        have hexcludes := (hT.mem_rivals_iff hfield hsingular).mp hk
        exact hpart k (hm.get?_of_excludes hexcludes (by simp [hget]))
      rw [htype, Message.clearAll, FieldMap.eraseAll_of_get?_eq_none hunset, Message.eta]
    have hkeep : (!f.tracksPresence && v.quieted.isDefault) = false := by
      rw [Value.isDefault_quieted]
      cases htracks : f.tracksPresence with
      | true => rfl
      | false => exact hpresence htracks
    rw [← htype] at hfield
    simp only [Message.put, hfield, Message.store, hrivals, hkeep, Bool.false_eq_true, ↓reduceIte]
  | @many items hrepeated hitems haccepts =>
    have hvalues : f.valuesOfItems S (plainItems S naming items) = .ok (quietedItems items) := by
      refine valuesOfItems_toPlain hS hT hf fun w hw => ⟨haccepts w hw, ?_, fun x hx => ?_⟩
      · exact hcanonical.of_mem_list (haccepts w hw) hw
      · exact hreturns x (Value.mem_messages_list (haccepts w hw) hw hx)
    have hshown : f.plainValue (some ((Value.list items).toPlain S naming)) =
        .array (plainItems S naming items) := by
      simp only [Field.plainValue, hrepeated, Value.toPlain, ↓reduceIte]
    rw [hshown, takeEntries_array hspelled hf' hrepeated hvalues]
    rw [← htype] at hfield
    have hnonempty : (quietedItems items).isEmpty = false := by
      rw [quietedItems_eq_map]
      simpa using hitems
    simp only [Message.putItems, hnonempty, hfield, Option.isSome_some, Bool.false_eq_true,
      ↓reduceIte, Value.quieted]

end

/-- What has come back of a message when these fields are read. -/
def Message.upTo (m : Message) (front : List Field) : Message :=
  ⟨m.type, FieldMap.keep m.quieted.fields fun k => k ∈ front.map (·.number)⟩

theorem Message.get?_upTo (m : Message) (front : List Field) (k : Nat) :
    (m.upTo front).get? k =
      if k ∈ front.map (·.number) then (m.get? k).map Value.quieted else none := by
  rw [get?, upTo, FieldMap.get?_keep]
  simp only [decide_eq_true_eq]
  split
  · exact m.get?_quieted k
  · rfl

theorem Message.ascending_quieted (hm : m.Canonical S) :
    FieldMap.Ascending m.quieted.fields := by
  rw [fields_quieted]
  exact hm.shaped.ascending.map _

theorem Message.ascending_upTo (hm : m.Canonical S) (front : List Field) :
    FieldMap.Ascending (m.upTo front).fields :=
  (ascending_quieted hm).keep fun k => k ∈ front.map Field.number

/-- Reading one more field brings in what it holds, if it is set. -/
theorem Message.upTo_snoc (hm : m.Canonical S) (front : List Field) (f : Field) :
    m.upTo (front ++ [f]) =
      match m.get? f.number with
      | some v => (m.upTo front).insert f.number v.quieted
      | none => m.upTo front := by
  have hnumbers (k : Nat) : k ∈ (front ++ [f]).map (·.number) ↔
      k ∈ front.map (·.number) ∨ k = f.number := by
    simp
  have hascending := ascending_upTo hm (front ++ [f])
  cases hget : m.get? f.number with
  | none =>
    refine ext_get? rfl hascending (ascending_upTo hm front) fun k => ?_
    rw [get?_upTo, get?_upTo]
    simp only [hnumbers]
    by_cases hk : k = f.number
    · simp [hk, hget]
    · simp [hk]
  | some v =>
    refine ext_get? rfl hascending ((ascending_upTo hm front).insert _ _) fun k => ?_
    rw [get?_insert, get?_upTo, get?_upTo]
    simp only [hnumbers]
    by_cases hk : k = f.number
    · simp [hk, hget]
    · simp [hk]

/-- When all fields are read the message is complete. -/
theorem Message.upTo_fields (hm : m.Canonical S) : m.upTo (S.type m.type).fields = m.quieted := by
  have hall : FieldMap.keep m.quieted.fields
      (fun k => k ∈ (S.type m.type).fields.map (·.number)) = m.quieted.fields := by
    refine List.filter_eq_self.mpr fun p hp => ?_
    have hget := (ascending_quieted hm).get?_eq_some_iff.mpr hp
    obtain ⟨v, hv, _⟩ := Option.map_eq_some_iff.mp ((m.get?_quieted p.1).symm.trans hget)
    obtain ⟨f, hf, _⟩ := hm.shaped.stored p.1 v hv
    rw [decide_eq_true_eq, ← MessageType.number_of_field? hf]
    exact List.mem_map_of_mem (MessageType.mem_of_field? hf)
  rw [upTo, hall, ← type_quieted, eta]

/-- The induction is on the fields left to read, in the order of their declaration. -/
theorem takeEntries_fields {front back : List Field} (hS : S.WellFormed) (hm : m.Canonical S)
    (hspelled : (S.type m.type).SpelledApart)
    (hreturns : ∀ n v, m.get? n = some v → ∀ x ∈ v.messages, x.Returns S naming)
    (hfields : front ++ back = (S.type m.type).fields) :
    takeEntries S (m.upTo front) (back.map fun f =>
      (f.plainKey, f.plainValue ((m.get? f.number).map (Value.toPlain S naming)))) =
        .ok m.quieted := by
  induction back generalizing front with
  | nil =>
    rw [List.append_nil] at hfields
    rw [hfields, Message.upTo_fields hm]
    rfl
  | cons f back ih =>
    have hsplit := (List.append_cons front f back).symm
    have hf : f ∈ (S.type m.type).fields := by
      rw [← hfields]
      exact List.mem_append_right _ List.mem_cons_self
    have hrest := ih (hsplit.trans hfields)
    rw [Message.upTo_snoc hm] at hrest
    rw [List.map_cons]
    cases hget : m.get? f.number with
    | none =>
      rw [hget] at hrest
      have hunset : (m.upTo front).get? f.number = none := by
        rw [Message.get?_upTo, hget]
        simp
      rw [Option.map_none]
      refine Eq.trans ?_ hrest
      exact takeEntries_default hS hspelled hf hunset
    | some v =>
      rw [hget] at hrest
      have hpart (k : Nat) (hk : m.get? k = none) : (m.upTo front).get? k = none := by
        rw [Message.get?_upTo, hk]
        simp
      rw [Option.map_some]
      refine Eq.trans ?_ hrest
      exact takeEntries_stored hS hm hspelled hf hget (hreturns _ _ hget) rfl hpart

/-- The induction is on the messages in the message. -/
theorem Message.Canonical.returns (hS : S.WellFormed) (hspelled : S.SpelledApart)
    (hm : m.Canonical S) : m.Returns S naming := by
  induction hm with
  | @intro m shaped nested ih =>
    have hm : m.Canonical S := .intro shaped nested
    have hT : (S.type m.type).SpelledApart := hspelled _ (by simp [Schema.type, hm.type_lt])
    have hread := takeEntries_fields hS hm hT ih (List.nil_append (S.type m.type).fields)
    have hstart : m.upTo [] = Message.empty m.type := by
      have hnone : FieldMap.keep m.quieted.fields (fun _ => false) = [] :=
        List.filter_eq_nil_iff.mpr fun _ _ => by simp
      simp only [Message.upTo, List.map_nil, List.not_mem_nil, decide_false, hnone]
      rfl
    rw [Message.Returns, Message.toPlain_eq,
      (hT.keyedApart (hS.type m.type).distinct).plainObject_eq, Message.ofPlain,
      MessageType.plainEntries]
    simp only [Message.get?_plainFields]
    rw [hstart] at hread
    cases naming with
    | false => exact hread
    | true =>
      rw [if_pos rfl, List.singleton_append, takeEntries_typeKey]
      exact hread

/-- The plain form of a canonical message reads back as the message, with quiet NaNs and otherwise
bit for bit, whether the objects name their types or not. -/
theorem plain_form_round_trip (hS : S.WellFormed) (hspelled : S.SpelledApart) (hm : m.Canonical S)
    (naming : Bool) : Message.ofPlain S m.type (m.toPlain S naming) = .ok m.quieted :=
  hm.returns hS hspelled

section

open Vision

theorem schema_spelledApart : schema.SpelledApart := by decide +kernel

/-- One corner, the first coordinate of which is a negative NaN. -/
def openPoly (x : UInt32) : Message :=
  ⟨TypeName.boundingPoly.id, [(2, .list [.message ⟨TypeName.normalizedVertex.id,
    [(1, .float x), (2, .float 0x3f000000)]⟩])]⟩

/-- Of the group it has the member that is a default. -/
def purgeRequest : Message :=
  ⟨TypeName.purgeProductsRequest.id, [(1, .string "p"), (3, .bool false)]⟩

theorem canonical_openPoly : (openPoly 0xffc00001).Canonical schema := by
  have hdecode : Message.decode schema TypeName.boundingPoly.id Limits.default
      [18, 10, 13, 1, 0, 192, 255, 21, 0, 0, 0, 63] = .ok (openPoly 0xffc00001) := by
    cbv
  exact .decode schema_wellFormed (id_lt_size _) hdecode

theorem canonical_purgeRequest : purgeRequest.Canonical schema := by
  have hdecode : Message.decode schema TypeName.purgeProductsRequest.id Limits.default
      [10, 1, 112, 24, 0] = .ok purgeRequest := by
    cbv
  exact .decode schema_wellFormed (id_lt_size _) hdecode

/-- The NaN comes back as the quiet one, and the default of the group comes back. -/
theorem purge_and_poly_round_trip :
    Message.ofPlain schema TypeName.boundingPoly.id
        ((openPoly 0xffc00001).toPlain schema true) = .ok (openPoly 0x7fc00000) ∧
      Message.ofPlain schema TypeName.purgeProductsRequest.id (purgeRequest.toPlain schema false) =
        .ok purgeRequest := by
  have hquieted : (openPoly 0xffc00001).quieted = openPoly 0x7fc00000 := by cbv
  rw [← hquieted]
  exact ⟨plain_form_round_trip schema_wellFormed schema_spelledApart canonical_openPoly true,
    plain_form_round_trip schema_wellFormed schema_spelledApart canonical_purgeRequest false⟩

end

end Protowire
