import Protowire.Proofs.FieldMap
import Protowire.Proofs.Message.Names
import Protowire.Proofs.Vision.Schema

/-!
An older schema reads newer data. A type from which fields were taken away, of each oneof group all
members or none, reads the same bytes and comes to the same message without these fields: what the
newer type reads as a value of such a field, the older one skips. The messages inside are of the
same types as before, and there both read alike.
-/

namespace Protowire

open Reader Wire

/-! ### Fewer fields -/

/-- The type without the fields that have these numbers. A oneof group keeps its position. -/
def MessageType.without (T : MessageType) (removed : List Nat) : MessageType :=
  ⟨T.fullName, T.fields.filter (·.number ∉ removed),
    T.oneofs.map fun group => ⟨group.name, group.members.filter (· ∉ removed)⟩⟩

/-- The schema with an older form of a type, which stands at its end. Other types still refer to the
newer form. -/
def Schema.withOlder (S : Schema) (t : TypeId) (removed : List Nat) : Schema :=
  ⟨S.types.push ((S.type t).without removed)⟩

/-- What a message of another type keeps of a message when fields are removed. -/
def Message.without (m : Message) (t : TypeId) (removed : List Nat) : Message :=
  ⟨t, FieldMap.eraseAll m.fields removed⟩

/-- Of each oneof group all members are removed or none. -/
def MessageType.GroupsWhole (T : MessageType) (removed : List Nat) : Prop :=
  ∀ group ∈ T.oneofs, (∀ n ∈ group.members, n ∈ removed) ∨ ∀ n ∈ group.members, n ∉ removed

instance (T : MessageType) (removed : List Nat) : Decidable (T.GroupsWhole removed) :=
  inferInstanceAs (Decidable (∀ group ∈ T.oneofs,
    (∀ n ∈ group.members, n ∈ removed) ∨ ∀ n ∈ group.members, n ∉ removed))

theorem MessageType.field?_without (T : MessageType) (removed : List Nat) (n : Nat) :
    (T.without removed).field? n = if n ∈ removed then none else T.field? n := by
  rw [field?, without, List.find?_filter, field?]
  split
  · rename_i hn
    refine List.find?_eq_none.mpr fun f _ => ?_
    simp only [decide_eq_true_eq, not_and]
    rintro hf rfl
    exact hf hn
  · rename_i hn
    congr 1
    funext f
    by_cases hf : f.number = n
    · simp [hf, hn]
    · simp [hf]

section

variable {types : Nat} {T : MessageType} {f : Field} {n : Nat} {removed : List Nat}

/-- A field that stays unsets the same fields as before. -/
theorem MessageType.WellFormed.rivals_without (hT : T.WellFormed types)
    (hwhole : T.GroupsWhole removed) (hf : T.field? n = some f) (hsingular : f.repeated = false)
    (hn : n ∉ removed) : (T.without removed).rivals f = T.rivals f := by
  have honeof (i : Nat) : (T.without removed).oneof? i =
      (T.oneof? i).map fun group => ⟨group.name, group.members.filter (· ∉ removed)⟩ := by
    simp [oneof?, without]
  cases ho : f.oneof with
  | none => simp [rivals, ho]
  | some i =>
    cases hi : T.oneof? i with
    | none => simp [rivals, ho, honeof, hi]
    | some group =>
      have hmember : n ∈ group.members := (hT.mem_members_iff hf hi).mpr ⟨hsingular, ho⟩
      have hkept : group.members.filter (· ∉ removed) = group.members := by
        rcases hwhole group (List.mem_of_getElem? hi) with hall | hnone
        · exact absurd (hall n hmember) hn
        · exact List.filter_eq_self.mpr fun k hk => by simpa using hnone k hk
      simp only [rivals, ho, Option.bind_some, honeof, hi, Option.map_some, hkept]

/-- A field that goes takes with it all that setting it would unset. -/
theorem MessageType.WellFormed.removed_of_mem_rivals (hT : T.WellFormed types)
    (hwhole : T.GroupsWhole removed) (hf : T.field? n = some f) (hsingular : f.repeated = false)
    (hn : n ∈ removed) {k : Nat} (hk : k ∈ T.rivals f) : k ∈ removed := by
  obtain ⟨_, group, hgroup, hmember, hk⟩ := hT.exists_group_of_mem_rivals hf hsingular hk
  rcases hwhole group hgroup with hall | hnone
  · exact hall k hk
  · exact absurd hn (hnone n hmember)

end

theorem Schema.type_withOlder (S : Schema) (t : TypeId) (removed : List Nat) :
    (S.withOlder t removed).type S.types.size = (S.type t).without removed := by
  simp [Schema.type, withOlder]

theorem Schema.type_withOlder_of_ne {S : Schema} {u : TypeId} (h : u ≠ S.types.size) (t : TypeId)
    (removed : List Nat) : (S.withOlder t removed).type u = S.type u := by
  simp [Schema.type, withOlder, Array.getElem?_push, h]

/-! ### Skipping what was read -/

/-- What a record is to a type without these fields. -/
def Record.without (r : Record) (removed : List Nat) : Record :=
  if r.field?.any (·.number ∈ removed) then .unknown else r

theorem Record.Form.without {T : MessageType} {room : Nat} {form : List UInt8} {r : Record}
    (h : Record.Form T room form r) (removed : List Nat) :
    Record.Form (T.without removed) room form (r.without removed) := by
  have hfield := T.field?_without removed
  have hnumber {n : Nat} {f : Field} (hf : T.field? n = some f) := MessageType.number_of_field? hf
  cases h with
  | @unknown number wire tag value hf htag hvalue =>
    exact .unknown (by simp [hfield, hf]) htag hvalue
  | @value number f s v tag value hf hkind htag hvalue =>
    simp only [Record.without, Record.field?, Option.any_some, hnumber hf, decide_eq_true_eq]
    split
    · rename_i hn
      exact .unknown (by rw [hfield, if_pos hn]) htag (hvalue.plain.value room number)
    · rename_i hn
      exact .value (by rw [hfield, if_neg hn, hf]) hkind htag hvalue
  | @packed number f s vs tag value region hf hkind hrepeated hpackable htag hvalue hrun =>
    simp only [Record.without, Record.field?, Option.any_some, hnumber hf, decide_eq_true_eq]
    split
    · rename_i hn
      have hplain : PlainForm .lengthDelimited value := ⟨region, hvalue⟩
      exact .unknown (by rw [hfield, if_pos hn]) htag (hplain.value room number)
    · rename_i hn
      exact .packed (by rw [hfield, if_neg hn, hf]) hkind hrepeated hpackable htag hvalue hrun
  | @body number f t tag value bytes hf hkind hroom htag hvalue =>
    simp only [Record.without, Record.field?, Option.any_some, hnumber hf, decide_eq_true_eq]
    split
    · rename_i hn
      have hplain : PlainForm .lengthDelimited value := ⟨bytes, hvalue⟩
      exact .unknown (by rw [hfield, if_pos hn]) htag (hplain.value room number)
    · rename_i hn
      exact .body (by rw [hfield, if_neg hn, hf]) hkind hroom htag hvalue

/-! ### The types inside read alike -/

variable {S S' : Schema} {nesting : Nesting} {m : Message} {f : Field} {n : Nat}
  {bs : List UInt8}

/-- All types of a schema are found in another one at their positions. -/
def Schema.Extends (S' S : Schema) : Prop := ∀ u < S.types.size, S'.type u = S.type u

theorem Schema.extends_withOlder (S : Schema) (t : TypeId) (removed : List Nat) :
    (S.withOlder t removed).Extends S :=
  fun _ hu => type_withOlder_of_ne (Nat.ne_of_lt hu) t removed

theorem Message.take_extends (hS : S'.Extends S) (hm : m.type < S.types.size) (f : Field)
    (v : Value) : m.take S' f v = m.take S f v := by
  simp only [take, store, hS m.type hm]

theorem merge_extends (hS : S.WellFormed) (hextends : S'.Extends S) (hm : m.Canonical S)
    (h : (merge S nesting m bs).error? = none) : merge S' nesting m bs = merge S nesting m bs := by
  induction h using merge_induction with
  | nil => simp
  | @record nesting m m' form rest r hform hafter _ ihbody ih =>
    have hform' : Record.Form (S'.type m.type) nesting.room form r := by
      rwa [hextends m.type hm.type_lt]
    have hafter' : m.after S' nesting r = (m', none) := by
      rw [← hafter]
      refine Message.after_congr (Message.take_extends hextends hm.type_lt) fun f t bytes hr => ?_
      subst hr
      obtain ⟨n, hf, hkind, _⟩ := hform.body_field
      exact ihbody _ (error?_of_after_body hafter) (hm.target hS hf hkind).1
    rw [merge_form hform hafter, merge_form hform' hafter', ih (hm.of_after hS hform hafter).1]

/-! ### Record by record -/

namespace Message

variable {t : TypeId} {removed : List Nat}

theorem get?_without (m : Message) (t : TypeId) (removed : List Nat) (k : Nat) :
    (m.without t removed).get? k = if k ∈ removed then none else m.get? k :=
  FieldMap.get?_eraseAll ..

/-- What is written to removed fields alone is not there afterwards. -/
theorem without_eq_without {m' : Message} (hm : FieldMap.Ascending m.fields)
    (hm' : FieldMap.Ascending m'.fields) (h : ∀ k, k ∉ removed → m'.get? k = m.get? k) :
    m'.without t removed = m.without t removed := by
  refine ext_get? rfl (hm'.eraseAll removed) (hm.eraseAll removed) fun k => ?_
  rw [get?_without, get?_without]
  split
  · rfl
  · exact h k ‹_›

theorem without_insert (hm : FieldMap.Ascending m.fields) (hn : n ∉ removed) (v : Value) :
    (m.insert n v).without t removed = (m.without t removed).insert n v := by
  simp only [without, insert, hm.eraseAll_insert, hn, ↓reduceIte]

theorem without_clearAll (m : Message) (ns : List Nat) :
    (m.clearAll ns).without t removed = (m.without t removed).clearAll ns := by
  simp only [without, clearAll, FieldMap.eraseAll_comm m.fields ns removed]

theorem without_clear (m : Message) (n : Nat) :
    (m.clear n).without t removed = (m.without t removed).clear n := by
  simp only [without, clear, FieldMap.erase_eq_eraseAll, FieldMap.eraseAll_comm m.fields [n]]

theorem without_items (hn : n ∉ removed) : (m.without t removed).items n = m.items n := by
  rw [items, items, get?_without, if_neg hn]

theorem without_target? (hn : f.number ∉ removed) :
    (m.without t removed).target? f = m.target? f := by
  rw [target?, target?, message?, message?, get?_without, if_neg hn]

theorem without_appendItems (hm : FieldMap.Ascending m.fields) (hn : n ∉ removed)
    (vs : List Value) :
    (m.appendItems n vs).without t removed = (m.without t removed).appendItems n vs := by
  rw [appendItems, appendItems, without_items hn]
  split
  · rfl
  · exact without_insert hm hn _

theorem get?_appendItems_of_ne {k : Nat} (hk : k ≠ n) (vs : List Value) :
    (m.appendItems n vs).get? k = m.get? k := by
  rw [appendItems]
  split
  · rfl
  · rw [get?_insert, if_neg hk]

/-- A field is set without a change to any but itself and its rivals. -/
theorem get?_store_of_ne {k : Nat} (hk : k ≠ f.number) (hrivals : k ∉ (S.type m.type).rivals f)
    (v : Value) : (m.store S f v).get? k = m.get? k := by
  rw [store]
  split
  · rw [get?_clear, if_neg hk, get?_clearAll, if_neg hrivals]
  · rw [get?_insert, if_neg hk, get?_clearAll, if_neg hrivals]

/-- What is taken in for a removed field is gone with the field. -/
theorem without_take_of_mem (hS : S.WellFormed) (hm : m.Canonical S)
    (hwhole : (S.type m.type).GroupsWhole removed) (hf : (S.type m.type).field? n = some f)
    (hn : n ∈ removed) {v : Value} (htake : (m.take S f v).Canonical S) :
    (m.take S f v).without t removed = m.without t removed := by
  have hnumber := MessageType.number_of_field? hf
  refine without_eq_without hm.shaped.ascending htake.shaped.ascending fun k hk => ?_
  have hkn : k ≠ n := by
    rintro rfl
    exact hk hn
  rw [take]
  split
  · rw [hnumber, get?_appendItems_of_ne hkn]
  · rename_i hrepeated
    refine get?_store_of_ne (hnumber ▸ hkn) (fun hrival => hk ?_) v
    exact (hS.type _).removed_of_mem_rivals hwhole hf (by simpa using hrepeated) hn hrival

/-- What is taken in for another field is taken in by the older type in the same way. -/
theorem without_take_of_not_mem (hS : S.WellFormed) (hm : m.Canonical S)
    (hwhole : (S.type m.type).GroupsWhole removed) (hf : (S.type m.type).field? n = some f)
    (hn : n ∉ removed) (v : Value) :
    (m.take S f v).without S.types.size removed =
      (m.without S.types.size removed).take (S.withOlder m.type removed) f v := by
  have hnumber := MessageType.number_of_field? hf
  by_cases hrepeated : f.repeated
  · rw [take, take, if_pos hrepeated, if_pos hrepeated, hnumber]
    exact without_appendItems hm.shaped.ascending hn [v]
  · have hrivals : ((S.withOlder m.type removed).type S.types.size).rivals f =
        (S.type m.type).rivals f := by
      rw [S.type_withOlder, (hS.type _).rivals_without hwhole hf (by simpa using hrepeated) hn]
    have hcleared := hm.clearAll ((S.type m.type).rivals f)
    have htype : (m.without S.types.size removed).type = S.types.size := rfl
    rw [take, take, if_neg hrepeated, if_neg hrepeated, store, store, htype, hrivals,
      ← without_clearAll, hnumber]
    split
    · exact without_clear _ n
    · exact without_insert hcleared.shaped.ascending hn v

theorem without_takeMessage_of_mem (hS : S.WellFormed) (hm : m.Canonical S)
    (hwhole : (S.type m.type).GroupsWhole removed) (hf : (S.type m.type).field? n = some f)
    (hn : n ∈ removed) {x : Message} (htake : (m.takeMessage S f x).Canonical S) :
    (m.takeMessage S f x).without t removed = m.without t removed := by
  rw [takeMessage] at htake ⊢
  split at htake
  · refine without_eq_without hm.shaped.ascending htake.shaped.ascending fun k hk => ?_
    have hkn : k ≠ f.number := by
      rintro rfl
      exact hk (MessageType.number_of_field? hf ▸ hn)
    rw [get?_insert, if_neg hkn]
  · exact without_take_of_mem hS hm hwhole hf hn htake

theorem without_takeMessage_of_not_mem (hS : S.WellFormed) (hm : m.Canonical S)
    (hwhole : (S.type m.type).GroupsWhole removed) (hf : (S.type m.type).field? n = some f)
    (hn : n ∉ removed) (x : Message) :
    (m.takeMessage S f x).without S.types.size removed =
      (m.without S.types.size removed).takeMessage (S.withOlder m.type removed) f x := by
  have hnumber := MessageType.number_of_field? hf
  rw [takeMessage, takeMessage, without_target? (hnumber ▸ hn)]
  split
  · exact without_insert hm.shaped.ascending (hnumber ▸ hn) _
  · exact without_take_of_not_mem hS hm hwhole hf hn _

end Message

/-- One record does to the older form of a message what it does to the message. -/
theorem Message.without_after {r : Record} {form : List UInt8} {m' : Message}
    {removed : List Nat} (hS : S.WellFormed) (hm : m.Canonical S)
    (hwhole : (S.type m.type).GroupsWhole removed)
    (hform : Record.Form (S.type m.type) nesting.room form r)
    (hafter : m.after S nesting r = (m', none)) :
    (m.without S.types.size removed).after (S.withOlder m.type removed) nesting
      (r.without removed) = (m'.without S.types.size removed, none) := by
  obtain ⟨hm', _⟩ := hm.of_after hS hform hafter
  cases hform with
  | unknown =>
    cases hafter
    rfl
  | @value n f s v tag value hf =>
    cases hafter
    rw [Record.without, Record.field?, Option.any_some, MessageType.number_of_field? hf]
    by_cases hn : n ∈ removed
    · rw [if_pos (by simpa using hn), without_take_of_mem hS hm hwhole hf hn hm']
      rfl
    · rw [if_neg (by simpa using hn), without_take_of_not_mem hS hm hwhole hf hn]
      rfl
  | @packed n f s vs tag value region hf =>
    have hnumber := MessageType.number_of_field? hf
    cases hafter
    rw [Record.without, Record.field?, Option.any_some, hnumber]
    by_cases hn : n ∈ removed
    · have hsame : (m.appendItems n vs).without S.types.size removed =
          m.without S.types.size removed := by
        refine without_eq_without hm.shaped.ascending (hnumber ▸ hm').shaped.ascending
          fun k hk => ?_
        refine get?_appendItems_of_ne (fun hkn => ?_) vs
        exact hk (hkn ▸ hn)
      rw [if_pos (by simpa using hn), hsame]
      rfl
    · rw [if_neg (by simpa using hn), without_appendItems hm.shaped.ascending hn, after, hnumber]
  | @body n f t tag value bytes hf hkind =>
    have hnumber := MessageType.number_of_field? hf
    obtain ⟨htarget, _⟩ := hm.target hS hf hkind
    have herror := error?_of_after_body hafter
    have hinner : merge (S.withOlder m.type removed) nesting.deeper _ bytes =
        merge S nesting.deeper _ bytes :=
      merge_extends hS (S.extends_withOlder m.type removed) htarget herror
    simp only [after, herror, Prod.mk.injEq, and_true] at hafter
    subst hafter
    rw [Record.without, Record.field?, Option.any_some, hnumber]
    by_cases hn : n ∈ removed
    · rw [if_pos (by simpa using hn), without_takeMessage_of_mem hS hm hwhole hf hn hm']
      rfl
    · rw [if_neg (by simpa using hn), without_takeMessage_of_not_mem hS hm hwhole hf hn]
      simp only [after, without_target? (hnumber ▸ hn), hinner, herror]

/-- A message and its older form go through the records together. -/
theorem merge_without {removed : List Nat} (hS : S.WellFormed) (hm : m.Canonical S)
    (hwhole : (S.type m.type).GroupsWhole removed) (h : (merge S nesting m bs).error? = none) :
    merge (S.withOlder m.type removed) nesting (m.without S.types.size removed) bs =
      ⟨(merge S nesting m bs).message.without S.types.size removed, [], none⟩ := by
  induction h using merge_induction with
  | nil => rw [merge_nil, merge_nil]
  | @record nesting m m' form rest r hform hafter _ _ ih =>
    obtain ⟨hm', htype⟩ := hm.of_after hS hform hafter
    have hform' : Record.Form ((S.withOlder m.type removed).type S.types.size) nesting.room form
        (r.without removed) := by
      rw [S.type_withOlder]
      exact hform.without removed
    have hstep := Message.without_after hS hm hwhole hform hafter
    have hrest := ih hm' (htype ▸ hwhole)
    rw [htype] at hrest
    rw [merge_form hform hafter, ← hrest]
    exact merge_form hform' hstep rest

/-! ### Other names -/

/-- Schemas that differ in names differ in nothing else when an older form of a type is added. -/
theorem Schema.Alike.withOlder (h : S.Alike S') (t : TypeId) (removed : List Nat) :
    (S.withOlder t removed).Alike (S'.withOlder t removed) := by
  refine ⟨by simp [Schema.withOlder, h.size], fun u => ?_, fun u => ?_⟩
  all_goals
    by_cases hu : u = S.types.size
    · rw [hu, S.type_withOlder, h.size, S'.type_withOlder]
      simp only [MessageType.without, h.fields, h.oneofs]
    · rw [type_withOlder_of_ne hu, type_withOlder_of_ne (h.size ▸ hu)]
      simp only [h.fields, h.oneofs]

/-- A type without some of its fields decodes what the whole type decodes, and comes to the same
message without these fields. -/
theorem older_type_reads {t : TypeId} {removed : List Nat} {limits : Limits}
    (hS : ∀ t, (S.type t).WellFormed S.types.size) (ht : t < S.types.size)
    (hwhole : (S.type t).GroupsWhole removed) (h : Message.decode S t limits bs = .ok m) :
    Message.decode (S.withOlder t removed) S.types.size limits bs =
      .ok ⟨S.types.size, FieldMap.eraseAll m.fields removed⟩ := by
  -- the names matter to neither type, so each type may have one of its own
  obtain ⟨R, hR, halike⟩ := Schema.exists_alike hS
  have hwhole' : (R.type t).GroupsWhole removed := by
    rwa [MessageType.GroupsWhole, ← halike.oneofs]
  obtain ⟨hsize, herror, rfl⟩ := Message.decode_eq_ok_iff.mp (halike.decode_of_eq_ok h)
  have hmerged : merge (R.withOlder t removed) limits.nesting (Message.empty R.types.size) bs =
      ⟨(merge R limits.nesting (Message.empty t) bs).message.without R.types.size removed, [],
        none⟩ :=
    merge_without hR (.empty (halike.size ▸ ht)) hwhole' herror
  refine (halike.withOlder t removed).symm.decode_of_eq_ok ?_
  rw [Message.decode_eq_ok_iff, halike.size, hmerged]
  exact ⟨hsize, rfl, rfl⟩

section

open Vision

/-- Without its name and its outcome an operation is read from the same bytes, in which the outcome
stands first and is then replaced by another. -/
theorem operation_without_outcome :
    Message.decode (schema.withOlder TypeName.operation.id [1, 4, 5]) schema.types.size
        Limits.default [34, 2, 8, 5, 42, 0, 18, 3, 10, 1, 116, 10, 1, 120] =
      .ok ⟨schema.types.size, [(2, .message ⟨TypeName.any.id, [(1, .string "t")]⟩)]⟩ := by
  have hwhole : (schema.type TypeName.operation.id).GroupsWhole [1, 4, 5] := by
    rw [schema_type_id]
    decide
  have hdecode : Message.decode schema TypeName.operation.id Limits.default
      [34, 2, 8, 5, 42, 0, 18, 3, 10, 1, 116, 10, 1, 120] =
        .ok ⟨TypeName.operation.id, [(1, .string "x"),
          (2, .message ⟨TypeName.any.id, [(1, .string "t")]⟩),
          (5, .message ⟨TypeName.any.id, []⟩)]⟩ := by
    cbv
  exact older_type_reads schema_wellFormed.type (id_lt_size .operation) hwhole hdecode

end

end Protowire
