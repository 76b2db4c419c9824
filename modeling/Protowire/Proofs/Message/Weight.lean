import Protowire.Proofs.Message.Reachable

/-!
How much a message weighs, and that decoding brings in no more than there are bytes. Every form of a
value is at least as long as the value weighs, also without its tag; what a record adds to a message
weighs no more than its form, and what it replaces is gone. So the bytes that are merged pay for all
that comes into the message, whether they merge or fail.
-/

namespace Protowire

open Reader Wire

mutual

/-- What the fields of a message weigh together. -/
def Message.weight : Message → Nat
  | ⟨_, fields⟩ => fieldsWeight fields

/-- A number weighs 1, a text or bytes one more than their length, a message one more than its
fields, and a list as much as its elements. -/
def Value.weight : Value → Nat
  | .string s => 1 + s.utf8ByteSize
  | .bytes bs => 1 + bs.length
  | .message m => 1 + m.weight
  | .list items => itemsWeight items
  | _ => 1

def fieldsWeight : List (Nat × Value) → Nat
  | [] => 0
  | (_, v) :: rest => v.weight + fieldsWeight rest

def itemsWeight : List Value → Nat
  | [] => 0
  | v :: rest => v.weight + itemsWeight rest

end

/-- In the message and in all messages inside, the numbers of the fields ascend. Every map of values
by their numbers can be listed so, and no number twice. -/
inductive Message.Ordered : Message → Prop
  | intro {m : Message} (ascending : FieldMap.Ascending m.fields)
    (nested : ∀ n v, m.get? n = some v → ∀ x ∈ v.messages, Ordered x) : Ordered m

/-- What the value in a field weighs; nothing if the field is unset. -/
def FieldMap.weightAt (fields : FieldMap Value) (n : Nat) : Nat :=
  (FieldMap.get? fields n).elim 0 Value.weight

variable {S : Schema} {m x : Message} {f : Field} {n : Nat} {v : Value} {vs : List Value}
  {s : Scalar} {form region : List UInt8}

/-! ### Forms -/

theorem Wire.DelimitedForm.length_le {body : List UInt8} (h : DelimitedForm form body) :
    1 + body.length ≤ form.length := by
  obtain ⟨length, hlength, rfl⟩ := h
  have hpos := hlength.length_pos
  rw [List.length_append]
  omega

namespace Scalar

theorem Form.weight_le (h : s.Form form v) : v.weight ≤ form.length := by
  have hpos : 1 ≤ form.length := h.length_pos
  cases s with
  | string =>
    obtain ⟨text, htext, rfl⟩ := h
    exact htext.length_le
  | bytes =>
    obtain ⟨bs, hbs, rfl⟩ := h
    exact hbs.length_le
  | fixed32 | sfixed32 | float | fixed64 | sfixed64 | double =>
    obtain ⟨_, rfl⟩ := h
    exact hpos
  | _ =>
    obtain ⟨_, _, rfl⟩ := h
    exact hpos

theorem RunForm.weight_le (h : s.RunForm region vs) : itemsWeight vs ≤ region.length := by
  induction h with
  | nil => exact Nat.le_refl 0
  | cons head tail ih =>
    have hhead := head.weight_le
    rw [itemsWeight, List.length_append]
    omega

end Scalar

/-! ### Fields -/

namespace FieldMap

variable {fields : FieldMap Value}

theorem fieldsWeight_filter_le (fields : FieldMap Value) (kept : Nat × Value → Bool) :
    fieldsWeight (fields.filter kept) ≤ fieldsWeight fields := by
  induction fields with
  | nil => exact Nat.le_refl 0
  | cons p fields ih =>
    obtain ⟨k, w⟩ := p
    rw [List.filter_cons, fieldsWeight]
    split
    · rw [fieldsWeight]
      omega
    · omega

/-- What is put into a field takes the place of what was there. -/
theorem fieldsWeight_insert (h : fields.Ascending) (n : Nat) (v : Value) :
    fieldsWeight (fields.insert n v) + fields.weightAt n = fieldsWeight fields + v.weight := by
  induction fields with
  | nil =>
    simp [insert, weightAt, fieldsWeight]
  | cons p fields ih =>
    obtain ⟨k, w⟩ := p
    obtain ⟨hk, hfields⟩ := List.pairwise_cons.mp h
    have hrest := ih hfields
    rw [weightAt] at hrest
    rw [insert, weightAt, get?_cons]
    split
    · rename_i hlt
      have hnone : get? fields n = none :=
        get?_eq_none_iff.mpr fun q hq => Nat.ne_of_gt (Nat.lt_trans hlt (hk q hq))
      rw [if_neg (Nat.ne_of_lt hlt), hnone]
      simp only [fieldsWeight, Option.elim_none]
      omega
    · split
      · simp only [fieldsWeight, Option.elim_some]
        omega
      · simp only [fieldsWeight]
        omega

end FieldMap

theorem itemsWeight_append (vs ws : List Value) :
    itemsWeight (vs ++ ws) = itemsWeight vs + itemsWeight ws := by
  induction vs with
  | nil => simp [itemsWeight]
  | cons v vs ih => rw [List.cons_append, itemsWeight, itemsWeight, ih, Nat.add_assoc]

/-! ### Writes -/

namespace Message

theorem weight_clearAll_le (m : Message) (ns : List Nat) : (m.clearAll ns).weight ≤ m.weight := by
  cases m
  exact FieldMap.fieldsWeight_filter_le _ _

theorem weight_clear_le (m : Message) (n : Nat) : (m.clear n).weight ≤ m.weight := by
  cases m
  exact FieldMap.fieldsWeight_filter_le _ _

theorem weight_insert (hm : FieldMap.Ascending m.fields) (n : Nat) (v : Value) :
    (m.insert n v).weight + FieldMap.weightAt m.fields n = m.weight + v.weight := by
  cases m
  exact FieldMap.fieldsWeight_insert hm n v

theorem weight_store_le (hm : FieldMap.Ascending m.fields) (S : Schema) (f : Field) (v : Value) :
    (m.store S f v).weight ≤ m.weight + v.weight := by
  have hcleared := m.weight_clearAll_le ((S.type m.type).rivals f)
  rw [store]
  split
  · have hclear := (m.clearAll ((S.type m.type).rivals f)).weight_clear_le f.number
    omega
  · have hinsert := weight_insert (hm.eraseAll ((S.type m.type).rivals f)) f.number v
      (m := m.clearAll ((S.type m.type).rivals f))
    omega

theorem exists_list_of_mem_items (hv : v ∈ m.items n) :
    ∃ items, m.get? n = some (.list items) ∧ v ∈ items := by
  rw [items] at hv
  cases hget : m.get? n with
  | none => simp [hget] at hv
  | some w =>
    cases w with
    | list items => exact ⟨items, rfl, by simpa [hget, Value.list?] using hv⟩
    | _ => simp [hget, Value.list?] at hv

/-- The elements that are there already are part of what the field weighs. -/
theorem itemsWeight_items_le (m : Message) (n : Nat) :
    itemsWeight (m.items n) ≤ FieldMap.weightAt m.fields n := by
  rw [items, get?, FieldMap.weightAt]
  cases FieldMap.get? m.fields n with
  | none => exact Nat.le_refl 0
  | some w =>
    cases w with
    | list items => exact Nat.le_refl _
    | _ => exact Nat.zero_le _

theorem weight_appendItems_le (hm : FieldMap.Ascending m.fields) (n : Nat) (vs : List Value) :
    (m.appendItems n vs).weight ≤ m.weight + itemsWeight vs := by
  rw [appendItems]
  split
  · exact Nat.le_add_right _ _
  · have hinsert := weight_insert hm n (.list (m.items n ++ vs))
    have hitems := m.itemsWeight_items_le n
    rw [Value.weight, itemsWeight_append] at hinsert
    omega

theorem weight_take_le (hm : FieldMap.Ascending m.fields) (S : Schema) (f : Field) (v : Value) :
    (m.take S f v).weight ≤ m.weight + v.weight := by
  rw [take]
  split
  · have happend := weight_appendItems_le hm f.number [v]
    simpa [itemsWeight] using happend
  · exact weight_store_le hm S f v

/-- A message in the place of the one that is there adds what it has gained. -/
theorem weight_insert_target (hm : FieldMap.Ascending m.fields) (htarget : m.target? f = some x)
    (y : Message) : (m.insert f.number (.message y)).weight + x.weight = m.weight + y.weight := by
  have hinsert := weight_insert hm f.number (.message y)
  have hget : FieldMap.get? m.fields f.number = some (.message x) :=
    (target?_eq_some_iff.mp htarget).2
  rw [FieldMap.weightAt, hget, Option.elim_some, Value.weight, Value.weight] at hinsert
  omega

end Message

/-! ### Order -/

namespace Message.Ordered

theorem ascending (hm : m.Ordered) : FieldMap.Ascending m.fields := by
  cases hm
  assumption

theorem value (hm : m.Ordered) (hv : m.get? n = some v) : ∀ x ∈ v.messages, x.Ordered := by
  cases hm with
  | intro _ nested => exact nested n v hv

theorem empty (t : TypeId) : (Message.empty t).Ordered := .intro List.Pairwise.nil (by simp)

theorem clearAll (hm : m.Ordered) (ns : List Nat) : (m.clearAll ns).Ordered := by
  refine .intro (hm.ascending.eraseAll ns) fun k w hw => ?_
  rw [get?_clearAll] at hw
  split at hw
  · cases hw
  · exact hm.value hw

theorem clear (hm : m.Ordered) (n : Nat) : (m.clear n).Ordered := by
  refine .intro (hm.ascending.erase n) fun k w hw => ?_
  rw [get?_clear] at hw
  split at hw
  · cases hw
  · exact hm.value hw

theorem insert (hm : m.Ordered) (n : Nat) (hv : ∀ x ∈ v.messages, x.Ordered) :
    (m.insert n v).Ordered := by
  refine .intro (hm.ascending.insert n v) fun k w hw => ?_
  rw [get?_insert] at hw
  split at hw
  · cases hw
    exact hv
  · exact hm.value hw

theorem store (hm : m.Ordered) (S : Schema) (f : Field) (hv : ∀ x ∈ v.messages, x.Ordered) :
    (m.store S f v).Ordered := by
  have hcleared := hm.clearAll ((S.type m.type).rivals f)
  rw [Message.store]
  split
  · exact hcleared.clear f.number
  · exact hcleared.insert f.number hv

theorem appendItems (hm : m.Ordered) (n : Nat)
    (hvs : ∀ v ∈ vs, ∀ x ∈ v.messages, x.Ordered) : (m.appendItems n vs).Ordered := by
  rw [Message.appendItems]
  split
  · exact hm
  · refine hm.insert n fun x hx => ?_
    obtain ⟨w, hw, hx⟩ := List.mem_filterMap.mp hx
    rcases List.mem_append.mp hw with hw | hw
    · obtain ⟨items, hget, hw⟩ := exists_list_of_mem_items hw
      exact hm.value hget x (List.mem_filterMap.mpr ⟨w, hw, hx⟩)
    · cases w <;> cases hx
      exact hvs _ hw x (List.mem_singleton_self x)

theorem take (hm : m.Ordered) (S : Schema) (f : Field) (hv : ∀ x ∈ v.messages, x.Ordered) :
    (m.take S f v).Ordered := by
  rw [Message.take]
  split
  · exact hm.appendItems f.number (by simpa using hv)
  · exact hm.store S f hv

theorem target (hm : m.Ordered) (f : Field) (t : TypeId) :
    ((m.target? f).getD (Message.empty t)).Ordered := by
  cases htarget : m.target? f with
  | none => exact .empty t
  | some x =>
    have hget := (target?_eq_some_iff.mp htarget).2
    exact hm.value hget x (List.mem_singleton_self x)

theorem keepTarget (hm : m.Ordered) (f : Field) (hx : x.Ordered) : (m.keepTarget f x).Ordered := by
  rw [Message.keepTarget]
  split
  · exact hm.insert f.number (by simpa [Value.messages] using hx)
  · exact hm

theorem takeMessage (hm : m.Ordered) (S : Schema) (f : Field) (hx : x.Ordered) :
    (m.takeMessage S f x).Ordered := by
  have hv : ∀ y ∈ (Value.message x).messages, y.Ordered := by simpa [Value.messages] using hx
  rw [Message.takeMessage]
  split
  · exact hm.insert f.number hv
  · exact hm.take S f hv

end Message.Ordered

/-- Canonical messages are listed in order. -/
theorem Message.Canonical.ordered (hm : m.Canonical S) : m.Ordered := by
  induction hm with
  | intro shaped _ ih => exact .intro shaped.ascending ih

/-! ### Records -/

namespace Message

/-- What merging a body makes of its target: the target and the bytes pay for it. -/
theorem weight_takeMessage_le {t : TypeId} {paid : Nat} (hm : FieldMap.Ascending m.fields)
    (S : Schema) (f : Field) (hx : x.weight ≤ ((m.target? f).getD (empty t)).weight + paid) :
    (m.takeMessage S f x).weight ≤ m.weight + (1 + paid) := by
  rw [takeMessage]
  cases htarget : m.target? f with
  | some y =>
    have hinsert := weight_insert_target hm htarget x
    rw [htarget, Option.getD_some] at hx
    simp only
    omega
  | none =>
    have htake := weight_take_le hm S f (.message x)
    have hempty : (empty t).weight = 0 := rfl
    rw [htarget, Option.getD_none, hempty] at hx
    rw [Value.weight] at htake
    simp only
    omega

theorem weight_keepTarget_le {t : TypeId} {paid : Nat} (hm : FieldMap.Ascending m.fields)
    (f : Field) (hx : x.weight ≤ ((m.target? f).getD (empty t)).weight + paid) :
    (m.keepTarget f x).weight ≤ m.weight + paid := by
  rw [keepTarget]
  cases htarget : m.target? f with
  | some y =>
    have hinsert := weight_insert_target hm htarget x
    rw [htarget, Option.getD_some] at hx
    simp only
    omega
  | none => exact Nat.le_add_right _ _

/-- One record adds no more than its form has bytes, also one that fails inside, provided that its
body adds no more than the body has. -/
theorem after_light {room : Nat} {r : Record} (nesting : Nesting) (hm : m.Ordered)
    (hform : Record.Form (S.type m.type) room form r)
    (hbody : ∀ x : Message, x.Ordered → (merge S nesting.deeper x r.bytes).message.Ordered ∧
      (merge S nesting.deeper x r.bytes).message.weight ≤ x.weight + r.bytes.length) :
    (m.after S nesting r).1.Ordered ∧
      (m.after S nesting r).1.weight ≤ m.weight + form.length := by
  cases hform with
  | unknown => exact ⟨hm, Nat.le_add_right _ _⟩
  | @value number f s v tag value hfield hkind htag hvalue =>
    have hmessages (x : Message) (hx : x ∈ v.messages) : x.Ordered :=
      (Value.Canonical.of_scalar (S := S) hvalue.accepts x hx).ordered
    have htake := weight_take_le hm.ascending S f v
    have hweight := hvalue.weight_le
    refine ⟨hm.take S f hmessages, ?_⟩
    simp only [after, List.length_append]
    omega
  | @packed number f s vs tag value region hfield hkind hrepeated hpackable htag hvalue hrun =>
    have hmessages (v : Value) (hv : v ∈ vs) (x : Message) (hx : x ∈ v.messages) : x.Ordered :=
      (Value.Canonical.of_scalar (S := S) (hrun.accepts v hv) x hx).ordered
    have happend := weight_appendItems_le hm.ascending f.number vs
    have hweight := hrun.weight_le
    have hlength := hvalue.length_le
    refine ⟨hm.appendItems f.number hmessages, ?_⟩
    simp only [after, List.length_append]
    omega
  | @body number f t tag value bytes hfield hkind hroom htag hvalue =>
    obtain ⟨hordered, hweight⟩ := hbody _ (hm.target f t)
    have hlength := hvalue.length_le
    simp only [Record.bytes] at hordered hweight
    simp only [after, List.length_append]
    split
    · have hkeep := weight_keepTarget_le hm.ascending f hweight
      refine ⟨hm.keepTarget f hordered, ?_⟩
      simp only
      omega
    · have htake := weight_takeMessage_le hm.ascending S f hweight
      refine ⟨hm.takeMessage S f hordered, ?_⟩
      simp only
      omega

end Message

/-- The induction is on the length of the bytes; a record's body is shorter than they are. -/
theorem merge_light (S : Schema) (nesting : Nesting) (hm : m.Ordered) (bs : List UInt8) :
    (merge S nesting m bs).message.Ordered ∧
      (merge S nesting m bs).message.weight ≤ m.weight + bs.length := by
  induction hn : bs.length using Nat.strongRecOn generalizing nesting m bs with
  | ind n ih =>
    obtain rfl | ⟨hne, e, rest, hr⟩ | ⟨r, rest, m', e?, hr, hlt, hafter⟩ :=
      merge_cases S nesting m bs
    · rw [merge_nil]
      exact ⟨hm, Nat.le_add_right _ _⟩
    · rw [merge_error hne hr]
      exact ⟨hm, Nat.le_add_right _ _⟩
    · obtain ⟨form, hform, rfl⟩ := (Record.reads_read _ _).form hr
      have hshorter := Record.read_ok hr
      obtain ⟨hstep, hpaid⟩ := Message.after_light nesting hm hform fun x hx =>
        ih r.bytes.length (by omega) nesting.deeper hx r.bytes rfl
      simp only [hafter] at hstep hpaid
      rw [List.length_append] at hn hlt
      rw [merge_record hr, hafter]
      cases e? with
      | some e =>
        refine ⟨hstep, ?_⟩
        simp only
        omega
      | none =>
        obtain ⟨hordered, hweight⟩ := ih rest.length (by omega) nesting hstep rest rfl
        refine ⟨hordered, ?_⟩
        simp only
        omega

/-- Merging adds to a message no more than there are bytes, whether they merge or fail and whatever
the types declare; so what is decoded weighs no more than the bytes it comes from. -/
theorem decoding_does_not_amplify (S : Schema) (nesting : Nesting) (hm : m.Ordered)
    (bs : List UInt8) :
    (merge S nesting m bs).message.weight ≤ m.weight + bs.length ∧
      ∀ (t : TypeId) (limits : Limits) (m' : Message),
        Message.decode S t limits bs = .ok m' → m'.weight ≤ bs.length := by
  refine ⟨(merge_light S nesting hm bs).2, fun t limits m' hm' => ?_⟩
  obtain ⟨_, _, rfl⟩ := Message.decode_eq_ok_iff.mp hm'
  have hmerged := (merge_light S limits.nesting (.empty t) bs).2
  have hempty : (Message.empty t).weight = 0 := rfl
  omega

section

open Vision

/-- A body that fails behind the first of its records. -/
theorem interrupted_operation_light :
    interruptedOperation.Ordered ∧ interruptedOperation.weight = 3 ∧
      (merge schema Limits.default.nesting interruptedOperation
        [18, 6, 10, 3, 118, 119, 120, 24]).message.weight ≤ interruptedOperation.weight + 8 := by
  have hordered := (reachable_interruptedOperation.canonical schema_wellFormed).ordered
  exact ⟨hordered, by decide,
    (decoding_does_not_amplify schema Limits.default.nesting hordered
      [18, 6, 10, 3, 118, 119, 120, 24]).1⟩

end

end Protowire
