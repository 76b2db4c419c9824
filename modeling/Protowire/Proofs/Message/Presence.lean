import Protowire.Proofs.Message.Encoded
import Protowire.Proofs.Plain.RoundTrip

/-!
Presence. That a field is set is told in three ways: the message stores something for it, the bytes
hold a record of it, and the plain form shows something else than for an unset field. For a
canonical message the three agree. What a field may hold (`Field.Holds`) is not written as nothing,
and it does not show what stands for an unset field, since that would read back as a default.
-/

namespace Protowire

open Wire

/-- Equality of plain values, for which the two zeros are one. -/
def Plain.Same (p q : Plain) : Prop :=
  p = q ∨ ∃ a b, p = .float a ∧ q = .float b ∧
    Binary.double.isZero a.toNat ∧ Binary.double.isZero b.toNat

/-- The plain value shows that the field is set. For a repeated field it is an array that is not
empty; for a scalar outside a oneof it is not the default; for any other field it is not null. -/
def Field.ShowsSet (S : Schema) (naming : Bool) (f : Field) (p : Plain) : Prop :=
  if f.repeated then ∃ item items, p = .array (item :: items)
  else
    match f.kind, f.oneof with
    | .scalar s, none => ¬p.Same (s.default.toPlain S naming)
    | _, _ => p ≠ .null

variable {S : Schema} {T : MessageType} {types n : Nat} {naming : Bool} {m : Message} {f : Field}
  {s : Scalar} {v w : Value} {p q : Plain} {name key : String}

/-! ### In the store -/

theorem Field.Holds.ne_empty (h : f.Holds S v) : v ≠ .list [] := by
  rintro rfl
  cases h with
  | one _ haccepts =>
    rw [Kind.accepts_list] at haccepts
    cases haccepts
  | many _ hitems => exact hitems rfl

/-- Everything that is stored counts as set. -/
theorem Message.Canonical.has_iff (hm : m.Canonical S) : m.has n ↔ m.get? n ≠ none := by
  rw [has]
  split
  · rename_i items hget
    obtain ⟨f, _, hholds⟩ := hm.shaped.stored n _ hget
    cases items with
    | nil => exact absurd rfl hholds.ne_empty
    | cons v items => simp [hget]
  · rename_i v _ hget
    simp [hget]
  · rename_i hget
    simp [hget]

/-- A oneof group names a field just if it is a member that is set. -/
theorem Message.Canonical.whichOneof?_eq_some_iff (hm : m.Canonical S) {i : Nat} :
    m.whichOneof? S i = some n ↔
      (∃ group, (S.type m.type).oneof? i = some group ∧ n ∈ group.members) ∧ m.get? n ≠ none := by
  constructor
  · intro h
    rw [whichOneof?] at h
    obtain ⟨group, hgroup, hfind⟩ := Option.bind_eq_some_iff.mp h
    have hset : FieldMap.contains m.fields n := List.find?_some hfind
    exact ⟨⟨group, hgroup, List.mem_of_find?_eq_some hfind⟩, Option.isSome_iff_ne_none.mp hset⟩
  · rintro ⟨⟨group, hgroup, hn⟩, hset⟩
    refine whichOneof?_eq_some hgroup hn hset fun k hk hset' => ?_
    exact hm.shaped.exclusive group (List.mem_of_getElem? hgroup) k hk n hn hset' hset

/-! ### On the wire -/

section

variable (hT : T.WellFormed types) (hf : T.field? n = some f)

include hT hf

theorem writeDelimited_ne_nil (bs : List UInt8) : writeDelimited n bs ≠ [] := by
  intro hnil
  have hform : RecordForm 0 n (writeDelimited n bs) :=
    recordForm_writeDelimited hT hf (by simp [hnil])
  exact hform.ne_nil hnil

theorem encodeElement_ne_nil (haccepts : f.kind.accepts S v) : encodeElement S f v ≠ [] := by
  intro hnil
  have hform : RecordForm 0 n (encodeElement S f v) :=
    recordForm_encodeElement hT hf haccepts (by simp [hnil])
  exact hform.ne_nil hnil

/-- What a field holds is not written as nothing. -/
theorem encodeField_ne_nil (hholds : f.Holds S v) : encodeField S f v ≠ [] := by
  cases hholds with
  | one _ haccepts hpresence =>
    rw [encodeField_of_singular haccepts hpresence]
    exact encodeElement_ne_nil hT hf haccepts
  | @many items _ hitems haccepts =>
    obtain ⟨w, items, rfl⟩ := List.exists_cons_of_ne_nil hitems
    cases hpackable : f.kind.packable with
    | true =>
      cases hkind : f.kind with
      | scalar s =>
        rw [hkind] at hpackable
        have hpackable : s.packable := hpackable
        rw [encodeField, hkind]
        simp only [Scalar.writeList, hpackable, List.isEmpty_cons, Bool.false_eq_true, ↓reduceIte]
        rw [Scalar.writePacked, MessageType.number_of_field? hf]
        exact writeDelimited_ne_nil hT hf _
      | message t =>
        rw [hkind] at hpackable
        cases hpackable
    | false =>
      rw [encodeField_list hpackable haccepts, List.flatMap_cons]
      intro hnil
      exact encodeElement_ne_nil hT hf (haccepts w List.mem_cons_self)
        (List.append_eq_nil_iff.mp hnil).1

/-- What a field holds is written as one record of the field or more. -/
theorem records_encodeField (hholds : f.Holds S v) (hlength : (encodeField S f v).length < 2 ^ 64) :
    ∃ rs, SplitsInto (encodeField S f v) rs ∧ rs ≠ [] ∧ ∀ r ∈ rs, r.1 = n := by
  obtain ⟨rs, hsplit, hrs⟩ := recordsOf_encodeField hT hf S v hlength
  refine ⟨rs, hsplit, ?_, hrs⟩
  rintro rfl
  exact encodeField_ne_nil hT hf hholds hsplit.bytes.symm

end

/-- The numbers of the records are those that are stored. The induction is on the stored fields. -/
theorem records_encodeFields (hT : T.WellFormed types) {fields : List (Nat × Value)}
    (hholds : ∀ p ∈ fields, ∃ f, T.field? p.1 = some f ∧ f.Holds S p.2)
    (hlength : (encodeFields S T fields).length < 2 ^ 64) :
    ∃ rs, SplitsInto (encodeFields S T fields) rs ∧
      ∀ k, (∃ r ∈ rs, r.1 = k) ↔ ∃ p ∈ fields, p.1 = k := by
  induction fields with
  | nil => exact ⟨[], .nil, by simp⟩
  | cons p fields ih =>
    obtain ⟨n, v⟩ := p
    obtain ⟨⟨f, hf, hv⟩, hothers⟩ := List.forall_mem_cons.mp hholds
    have hf : T.field? n = some f := hf
    have hv : f.Holds S v := hv
    simp only [encodeFields, hf, List.length_append] at hlength ⊢
    obtain ⟨own, hown, hne, hnumbers⟩ := records_encodeField hT hf hv (by omega)
    obtain ⟨rs, hsplit, hrs⟩ := ih hothers (by omega)
    refine ⟨own ++ rs, hown.append hsplit, fun k => ?_⟩
    obtain ⟨r, hr⟩ := List.exists_mem_of_ne_nil own hne
    have hk : (∃ r ∈ own, r.1 = k) ↔ n = k := by
      constructor
      · rintro ⟨r, hr, rfl⟩
        exact (hnumbers r hr).symm
      · rintro rfl
        exact ⟨r, hr, hnumbers r hr⟩
    simp only [List.mem_append, List.mem_cons, or_and_right, exists_or, hrs, hk, exists_eq_left]

/-- The records of a message are those of the fields that are stored. -/
theorem Message.Canonical.exists_records (hT : (S.type m.type).WellFormed types)
    (hm : m.Canonical S) (hlength : (m.encode S).length < UInt64.size) :
    ∃ rs, SplitsInto (m.encode S) rs ∧ ∀ n, (∃ r ∈ rs, r.1 = n) ↔ m.get? n ≠ none := by
  have hget {p : Nat × Value} (hp : p ∈ m.fields) : m.get? p.1 = some p.2 :=
    hm.shaped.ascending.get?_eq_some_iff.mpr hp
  rw [encode_eq] at hlength ⊢
  obtain ⟨rs, hsplit, hrs⟩ := records_encodeFields hT
    (fun p hp => hm.shaped.stored p.1 p.2 (hget hp)) hlength
  refine ⟨rs, hsplit, fun n => (hrs n).trans ?_⟩
  rw [Message.get?, Ne, FieldMap.get?_eq_none_iff]
  push Not
  rfl

/-! ### In plain form -/

namespace Plain

/-- A key of an object whose keys differ has one entry. -/
theorem filter_of_nodup_keys {entries : List (String × Plain)}
    (h : (entries.map Prod.fst).Nodup) (hmem : (key, p) ∈ entries) :
    entries.filter (·.1 = key) = [(key, p)] := by
  induction entries with
  | nil => cases hmem
  | cons e entries ih =>
    rw [List.map_cons, List.nodup_cons] at h
    rcases List.mem_cons.mp hmem with rfl | hmem
    · have hnone : entries.filter (·.1 = key) = [] := by
        refine List.filter_eq_nil_iff.mpr fun e he => ?_
        rw [decide_eq_true_eq]
        intro hkey
        exact h.1 (List.mem_map.mpr ⟨e, he, hkey⟩)
      rw [List.filter_cons_of_pos (by simp), hnone]
    · have hne : e.1 ≠ key := by
        intro hkey
        exact h.1 (List.mem_map.mpr ⟨_, hmem, hkey.symm⟩)
      rw [List.filter_cons_of_neg (by simpa using hne), ih h.2 hmem]

end Plain

/-- Where numbers with a fraction are read, both zeros are read as defaults. -/
theorem Scalar.isDefault_of_ofPlain_zero {bits : UInt64} (hzero : Binary.double.isZero bits.toNat)
    (hv : s.ofPlain name (.float bits) = .ok v) : v.isDefault := by
  cases s with
  | double =>
    cases hv
    simpa [Value.isDefault] using hzero
  | float =>
    have hnarrow : Binary.single.isZero (Binary.double.convert Binary.single bits.toNat) :=
      Binary.Format.isZero_convert (by decide) hzero
    have hlt : Binary.double.convert Binary.single bits.toNat < 2 ^ 32 :=
      Binary.Format.convert_lt (by decide) _
    simp only [ofPlain, Plain.double?] at hv
    split at hv
    · cases hv
    · cases hv
      rw [Value.isDefault, Nat.toUInt32, UInt32.toNat_ofNat_of_lt' hlt]
      exact hnarrow
  | _ => cases hv

/-- What is the same as the plain form of a default is read as a default. -/
theorem Scalar.isDefault_of_same (hpq : p.Same q) (hv : s.ofPlain name p = .ok v)
    (hw : s.ofPlain name q = .ok w) (hdefault : w.isDefault) : v.isDefault := by
  obtain rfl | ⟨a, b, rfl, rfl, ha, _⟩ := hpq
  · rw [hv] at hw
    cases hw
    exact hdefault
  · exact isDefault_of_ofPlain_zero ha hv

/-- Only defaults show what an unset scalar shows. -/
theorem Scalar.not_same_default (haccepts : s.accepts v) (hset : v.isDefault = false) :
    ¬(v.toPlain S naming).Same (s.default.toPlain S naming) := by
  intro hsame
  -- both are read back, and reading keeps apart what is a default and what is not
  obtain ⟨hquieted, hdefault⟩ := s.default_quieted
  have hv : s.ofPlain "" (v.toPlain S naming) = .ok v.quieted := ofPlain_toPlain haccepts ""
  have hw : s.ofPlain "" (s.default.toPlain S naming) = .ok s.default := by
    rw [ofPlain_toPlain s.accepts_default, hquieted]
  have hisDefault := isDefault_of_same hsame hv hw hdefault
  rw [Value.isDefault_quieted, hset] at hisDefault
  cases hisDefault

namespace Field

/-- What stands for an unset field does not show a set one. -/
theorem not_showsSet_plainDefault : ¬f.ShowsSet S naming f.plainDefault := by
  rw [ShowsSet]
  split
  · rename_i hrepeated
    simp [plainDefault, hrepeated]
  · rename_i hsingular
    rw [Bool.not_eq_true] at hsingular
    split
    · rename_i s hkind hgroup
      exact fun hset => hset (.inl (plainDefault_scalar S naming hkind hsingular hgroup))
    · rename_i hother
      rcases plainDefault_singular S naming hsingular with hnull | ⟨s, hkind, hgroup, _⟩
      · exact fun hset => hset hnull
      · exact absurd hgroup (hother s hkind)

/-- What a field holds shows that it is set. -/
theorem Holds.showsSet (hholds : f.Holds S v) :
    f.ShowsSet S naming (f.plainValue (some (v.toPlain S naming))) := by
  cases hholds with
  | one hsingular haccepts hpresence =>
    have hshown : f.plainValue (some (v.toPlain S naming)) = v.toPlain S naming := by
      simp only [plainValue, hsingular, Bool.false_eq_true, ↓reduceIte]
    rw [hshown, ShowsSet, hsingular, if_neg Bool.false_ne_true]
    split
    · rename_i s hkind hgroup
      have htracks : f.tracksPresence = false := by
        simp [tracksPresence, hgroup, hkind, Kind.isMessage]
      rw [hkind] at haccepts
      exact Scalar.not_same_default haccepts (hpresence htracks)
    · intro hnull
      have hnotNull : (v.toPlain S naming).isNull = false := v.isNull_toPlain
      rw [hnull] at hnotNull
      cases hnotNull
  | @many items hrepeated hitems haccepts =>
    obtain ⟨w, items, rfl⟩ := List.exists_cons_of_ne_nil hitems
    rw [ShowsSet, if_pos hrepeated]
    simp only [plainValue, hrepeated, Value.toPlain, plainItems, ↓reduceIte]
    exact ⟨_, _, rfl⟩

end Field

/-- A declared field has one entry in the object, and this one shows whether the field is stored. -/
theorem Message.Canonical.exists_entries (hT : (S.type m.type).WellFormed types)
    (hkeys : (S.type m.type).KeyedApart) (hm : m.Canonical S) (naming : Bool) :
    ∃ entries, m.toPlain S naming = .object entries ∧ ∀ f ∈ (S.type m.type).fields,
      ∃ p, entries.filter (·.1 = f.plainKey) = [(f.plainKey, p)] ∧
        (f.ShowsSet S naming p ↔ m.get? f.number ≠ none) := by
  refine ⟨_, (toPlain_eq S naming m).trans (hkeys.plainObject_eq naming _), fun f hf => ?_⟩
  refine ⟨f.plainValue ((m.get? f.number).map (Value.toPlain S naming)), ?_, ?_⟩
  · refine Plain.filter_of_nodup_keys (hkeys.nodup_keys naming _) ?_
    rw [← get?_plainFields]
    exact List.mem_append_right _ (List.mem_map_of_mem hf)
  · cases hget : m.get? f.number with
    | none => exact iff_of_false Field.not_showsSet_plainDefault (by simp)
    | some v => exact iff_of_true (hm.holds (hT.field?_number hf) hget).showsSet (by simp)

/-- That a field is set is told alike by the store, by the bytes, by the plain form and, if it is a
member of a oneof group, by the group. -/
theorem presence_agrees (hT : (S.type m.type).WellFormed S.types.size)
    (hkeys : (S.type m.type).KeyedApart) (hm : m.Canonical S) (naming : Bool) :
    ((m.encode S).length < UInt64.size → ∃ rs, SplitsInto (m.encode S) rs ∧
      ∀ f ∈ (S.type m.type).fields, (m.has f.number ↔ ∃ r ∈ rs, r.1 = f.number)) ∧
    (∃ entries, m.toPlain S naming = .object entries ∧ ∀ f ∈ (S.type m.type).fields,
      ∃ p, entries.filter (·.1 = f.plainKey) = [(f.plainKey, p)] ∧
        (m.has f.number ↔ f.ShowsSet S naming p)) ∧
    ∀ i, ∀ f ∈ (S.type m.type).fields, (m.whichOneof? S i = some f.number ↔
      (∃ group, (S.type m.type).oneof? i = some group ∧ f.number ∈ group.members) ∧
        m.has f.number) := by
  refine ⟨fun hlength => ?_, ?_, fun i f _ => ?_⟩
  · obtain ⟨rs, hsplit, hrs⟩ := hm.exists_records hT hlength
    exact ⟨rs, hsplit, fun f _ => hm.has_iff.trans (hrs f.number).symm⟩
  · obtain ⟨entries, hplain, hentries⟩ := hm.exists_entries hT hkeys naming
    refine ⟨entries, hplain, fun f hf => ?_⟩
    obtain ⟨p, hp, hshows⟩ := hentries f hf
    exact ⟨p, hp, hm.has_iff.trans hshows.symm⟩
  · rw [hm.whichOneof?_eq_some_iff, hm.has_iff]

section

open Vision

/-- The member of the group that holds a default is set, written and shown; the flag outside the
group is neither. -/
theorem purge_default_is_present :
    (∃ rs, SplitsInto (purgeRequest.encode schema) rs ∧ (∃ r ∈ rs, r.1 = 3) ∧
      ¬∃ r ∈ rs, r.1 = 4) ∧
    (∃ entries, purgeRequest.toPlain schema true = .object entries ∧
      ∃ p, entries.filter (·.1 = "deleteOrphanProducts") = [("deleteOrphanProducts", p)] ∧
        p ≠ .null) ∧
    purgeRequest.whichOneof? schema 0 = some 3 := by
  have htarget : Field.choice 3 "delete_orphan_products" .bool 0 ∈
      (schema.type purgeRequest.type).fields := by
    decide +kernel
  have hforce : Field.one 4 "force" .bool ∈ (schema.type purgeRequest.type).fields := by
    decide +kernel
  have hkeys : (schema.type purgeRequest.type).KeyedApart := by decide +kernel
  have hlength : (purgeRequest.encode schema).length < UInt64.size := by cbv
  have hset : purgeRequest.has 3 := rfl
  have hunset : ¬purgeRequest.has 4 := Bool.false_ne_true
  obtain ⟨hwire, ⟨entries, hplain, hentries⟩, hgroup⟩ :=
    presence_agrees (schema_wellFormed.type _) hkeys canonical_purgeRequest true
  refine ⟨?_, ⟨entries, hplain, ?_⟩, ?_⟩
  · obtain ⟨rs, hsplit, hrs⟩ := hwire hlength
    exact ⟨rs, hsplit, (hrs _ htarget).mp hset, fun h => hunset ((hrs _ hforce).mpr h)⟩
  · obtain ⟨p, hp, hshows⟩ := hentries _ htarget
    have hkey : (Field.choice 3 "delete_orphan_products" .bool 0).plainKey =
        "deleteOrphanProducts" := by
      decide +kernel
    rw [hkey] at hp
    exact ⟨p, hp, hshows.mp hset⟩
  · exact (hgroup 0 _ htarget).mpr ⟨⟨⟨"target", [2, 3]⟩, rfl, by decide⟩, hset⟩

end

end Protowire
