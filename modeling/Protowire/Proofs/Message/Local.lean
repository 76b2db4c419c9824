import Protowire.Proofs.Message.Merge

/-!
What one record looks at and what it touches. A record of field `n` looks at `n` alone: what it does
and whether it fails inside follow from what `n` holds. It changes `n`, and of the other fields it
can only unset such as `n` excludes. So two records of fields that have nothing to do with each
other may come in either order.
-/

namespace Protowire

open Reader Wire

/-- Field `n` has become `new?` and the fields in `cleared` are unset; the others are as before. -/
def Message.Changed (m : Message) (n : Nat) (new? : Option Value) (cleared : List Nat)
    (m' : Message) : Prop :=
  ∀ k, m'.get? k = if k = n then new? else if k ∈ cleared then none else m.get? k

/-- A change, with what goes wrong in it, that follows from field `n` of a message of type `T` and
touches only `n` and what `n` excludes. -/
def LocalAt (S : Schema) (T : MessageType) (n : Nat)
    (change : Message → Message × Option DecodeError) : Prop :=
  ∀ old? : Option Value, ∃ (new? : Option Value) (cleared : List Nat) (e? : Option DecodeError),
    (∀ k ∈ cleared, T.excludes n k) ∧
      ∀ m : Message, S.type m.type = T → m.get? n = old? →
        (change m).2 = e? ∧ m.Changed n new? cleared (change m).1

/-- Neither field has to do with the other. -/
def MessageType.Apart (T : MessageType) (n k : Nat) : Prop := n ≠ k ∧ T.excludes n k = false

variable {S : Schema} {T : MessageType} {types : Nat} {nesting : Nesting} {m m' : Message}
  {f : Field} {n k : Nat}

theorem MessageType.Apart.symm (h : T.Apart n k) : T.Apart k n :=
  ⟨h.1.symm, T.excludes_comm n k ▸ h.2⟩

/-! ### Local changes -/

namespace LocalAt

variable {g h : Message → Message × Option DecodeError}

/-- A field that has nothing to do with `n` stays as it is. -/
theorem get?_of_apart (hg : LocalAt S T n g) (hapart : T.Apart n k) (hm : S.type m.type = T) :
    (g m).1.get? k = m.get? k := by
  obtain ⟨new?, cleared, e?, hcleared, hchange⟩ := hg (m.get? n)
  obtain ⟨_, hget⟩ := hchange m hm rfl
  have hk : k ∉ cleared := by
    intro hk
    have hexcludes := hcleared k hk
    rw [hapart.2] at hexcludes
    cases hexcludes
  rw [hget, if_neg hapart.1.symm, if_neg hk]

/-- Messages that agree in field `n` go on to agree wherever they agree. -/
theorem agree (hg : LocalAt S T n g) (hm : S.type m.type = T) (hm' : S.type m'.type = T)
    (hn : m.get? n = m'.get? n) :
    (g m).2 = (g m').2 ∧ ∀ k, m.get? k = m'.get? k → (g m).1.get? k = (g m').1.get? k := by
  obtain ⟨new?, cleared, e?, _, hchange⟩ := hg (m.get? n)
  obtain ⟨herror, hget⟩ := hchange m hm rfl
  obtain ⟨herror', hget'⟩ := hchange m' hm' hn.symm
  refine ⟨herror.trans herror'.symm, fun k hk => ?_⟩
  rw [hget, hget', hk]

/-- Of two changes at fields that have nothing to do with each other, neither notices whether the
other has come before it. -/
theorem comm (hg : LocalAt S T n g) (hh : LocalAt S T k h) (hapart : T.Apart n k)
    (hm : S.type m.type = T) (hgm : S.type (g m).1.type = T) (hhm : S.type (h m).1.type = T) :
    (h (g m).1).2 = (h m).2 ∧ (g (h m).1).2 = (g m).2 ∧
      ∀ j, (h (g m).1).1.get? j = (g (h m).1).1.get? j := by
  have hk := hg.get?_of_apart hapart hm
  have hn := hh.get?_of_apart hapart.symm hm
  have hgh := hh.get?_of_apart hapart.symm hgm
  have hhg := hg.get?_of_apart hapart hhm
  obtain ⟨herrorH, hgetH⟩ := hh.agree hgm hm hk
  obtain ⟨herrorG, hgetG⟩ := hg.agree hhm hm hn
  refine ⟨herrorH, herrorG, fun j => ?_⟩
  by_cases hjn : j = n
  · subst hjn
    rw [hgh, hgetG _ hn]
  by_cases hjk : j = k
  · subst hjk
    rw [hhg, hgetH _ hk]
  -- everywhere else a field is unset by one of the two changes or by neither
  obtain ⟨_, clearedG, _, _, hchangeG⟩ := hg (m.get? n)
  obtain ⟨_, clearedH, _, _, hchangeH⟩ := hh (m.get? k)
  rw [(hchangeH _ hgm hk).2 j, (hchangeG _ hhm hn).2 j, (hchangeG m hm rfl).2 j,
    (hchangeH m hm rfl).2 j]
  simp only [hjn, hjk, ↓reduceIte]
  by_cases hG : j ∈ clearedG <;> by_cases hH : j ∈ clearedH <;> simp only [hG, hH, ↓reduceIte]

end LocalAt

/-! ### The writes -/

namespace Message

theorem changed_self {old? : Option Value} (hold : m.get? n = old?) : m.Changed n old? [] m := by
  intro k
  split <;> simp_all

theorem changed_insert (m : Message) (n : Nat) (v : Value) :
    m.Changed n (some v) [] (m.insert n v) := by
  intro k
  rw [get?_insert, if_neg List.not_mem_nil]

theorem changed_appendItems {old? : Option Value} (hold : m.get? n = old?) (vs : List Value) :
    m.Changed n (if vs.isEmpty then old? else some (.list ((old?.bind Value.list?).getD [] ++ vs)))
      [] (m.appendItems n vs) := by
  rw [appendItems]
  split
  · exact changed_self hold
  · exact hold ▸ changed_insert m n _

theorem changed_store (S : Schema) (m : Message) (f : Field) (v : Value) :
    m.Changed f.number (if !f.tracksPresence && v.isDefault then none else some v)
      ((S.type m.type).rivals f) (m.store S f v) := by
  intro k
  rw [store]
  split
  · rw [get?_clear, get?_clearAll]
  · rw [get?_insert, get?_clearAll]

end Message

theorem localAt_appendItems (S : Schema) (T : MessageType) (n : Nat) (vs : List Value) :
    LocalAt S T n (fun m => (m.appendItems n vs, none)) :=
  fun _ => ⟨_, [], none, by simp, fun _ _ hold => ⟨rfl, Message.changed_appendItems hold vs⟩⟩

theorem localAt_take (hT : T.WellFormed types) (hf : T.field? n = some f) (v : Value) :
    LocalAt S T n (fun m => (m.take S f v, none)) := by
  have hnumber := MessageType.number_of_field? hf
  by_cases hrepeated : f.repeated
  · simp only [Message.take, hrepeated, ↓reduceIte, hnumber]
    exact localAt_appendItems S T n [v]
  · intro old?
    refine ⟨if !f.tracksPresence && v.isDefault then none else some v, T.rivals f, none,
      fun k hk => ?_, fun m hm _ => ⟨rfl, ?_⟩⟩
    · exact (hT.mem_rivals_iff hf (by simpa using hrepeated)).mp hk
    · show m.Changed n _ _ (m.take S f v)
      rw [Message.take, if_neg hrepeated, ← hm, ← hnumber]
      exact m.changed_store S f v

/-- A body is merged into the message that its field holds, and what comes of it goes there. -/
theorem localAt_after_body (hT : T.WellFormed types) (hf : T.field? n = some f) (t : TypeId)
    (bytes : List UInt8) : LocalAt S T n (fun m => m.after S nesting (.body f t bytes)) := by
  have hnumber := MessageType.number_of_field? hf
  intro old?
  have htarget {m : Message} (hm : m.get? n = old?) :
      m.target? f = if f.repeated then none else old?.bind Value.message? := by
    rw [Message.target?, Message.message?, hnumber, hm]
  cases hx : if f.repeated then none else old?.bind Value.message? with
  | some x =>
    refine ⟨some (.message (merge S nesting.deeper x bytes).message), [],
      (merge S nesting.deeper x bytes).error?, by simp, fun m _ hm => ?_⟩
    have hm : m.target? f = some x := (htarget hm).trans hx
    simp only [Message.after, hm, Option.getD_some, Message.keepTarget, Message.takeMessage,
      hnumber]
    split
    · exact ⟨Eq.symm ‹_›, m.changed_insert n _⟩
    · exact ⟨Eq.symm ‹_›, m.changed_insert n _⟩
  | none =>
    have hm {m : Message} (hm : m.get? n = old?) : m.target? f = none := (htarget hm).trans hx
    cases he : (merge S nesting.deeper (Message.empty t) bytes).error? with
    | some e =>
      refine ⟨old?, [], some e, by simp, fun m _ hold => ?_⟩
      simp only [Message.after, hm hold, Option.getD_none, he, Message.keepTarget]
      exact ⟨trivial, Message.changed_self hold⟩
    | none =>
      obtain ⟨new?, cleared, e?, hcleared, hchange⟩ := localAt_take (S := S) hT hf
        (.message (merge S nesting.deeper (Message.empty t) bytes).message) old?
      refine ⟨new?, cleared, e?, hcleared, fun m hT hold => ?_⟩
      simp only [Message.after, hm hold, Option.getD_none, he, Message.takeMessage]
      exact hchange m hT hold

theorem localAt_after {room : Nat} {form : List UInt8} {r : Record} (hT : T.WellFormed types)
    (hform : Record.Form T room form r) (hfield : r.field? = T.field? n) :
    LocalAt S T n (fun m => m.after S nesting r) := by
  cases hform with
  | unknown =>
    exact fun _ => ⟨_, [], none, by simp, fun _ _ hold => ⟨rfl, Message.changed_self hold⟩⟩
  | value => exact localAt_take hT hfield.symm _
  | packed =>
    obtain rfl := MessageType.number_of_field? hfield.symm
    exact localAt_appendItems S T _ _
  | body => exact localAt_after_body hT hfield.symm _ _

/-! ### One complete record -/

theorem Message.ascending_store (hm : FieldMap.Ascending m.fields) (f : Field) (v : Value) :
    FieldMap.Ascending (m.store S f v).fields := by
  rw [store]
  split
  · exact (hm.eraseAll _).erase _
  · exact (hm.eraseAll _).insert _ _

theorem Message.ascending_after (hm : FieldMap.Ascending m.fields) (r : Record) :
    FieldMap.Ascending (m.after S nesting r).1.fields := by
  have hinsert (n : Nat) (v : Value) : FieldMap.Ascending (m.insert n v).fields := hm.insert n v
  have hitems (n : Nat) (vs : List Value) : FieldMap.Ascending (m.appendItems n vs).fields := by
    rw [appendItems]
    split
    · exact hm
    · exact hinsert n _
  have htake (f : Field) (v : Value) : FieldMap.Ascending (m.take S f v).fields := by
    rw [take]
    split
    · exact hitems f.number [v]
    · exact ascending_store hm f v
  cases r with
  | unknown => exact hm
  | value f v => exact htake f v
  | packed f vs => exact hitems f.number vs
  | body f t bytes =>
    simp only [after, keepTarget, takeMessage]
    split <;> split
    · exact hinsert f.number _
    · exact hm
    · exact hinsert f.number _
    · exact htake f _

/-- The complete record `form` with number `n` reads as `r` and turns `m` into `m'`. -/
structure Step (S : Schema) (nesting : Nesting) (n : Nat) (form : List UInt8) (r : Record)
    (m m' : Message) : Prop where
  form : Record.Form (S.type m.type) nesting.room form r
  field : r.field? = (S.type m.type).field? n
  after : m.after S nesting r = (m', none)

namespace Step

variable {form form' rest : List UInt8} {r r' : Record} {m₁ m₂ : Message}

theorem type (h : Step S nesting n form r m m') : m'.type = m.type :=
  Message.type_of_after h.after

theorem ascending (h : Step S nesting n form r m m') (hm : FieldMap.Ascending m.fields) :
    FieldMap.Ascending m'.fields := by
  have hafter : FieldMap.Ascending (m.after S nesting r).1.fields := Message.ascending_after hm r
  rwa [h.after] at hafter

theorem merge (h : Step S nesting n form r m m') (rest : List UInt8) :
    Protowire.merge S nesting m (form ++ rest) = Protowire.merge S nesting m' rest :=
  merge_form h.form h.after rest

theorem localAt (h : Step S nesting n form r m m') (hT : (S.type m.type).WellFormed types) :
    LocalAt S (S.type m.type) n (fun m => m.after S nesting r) :=
  localAt_after hT h.form h.field

/-- A complete record at the front of bytes that merge is one step of the merge. -/
theorem of_merge {room : Nat} (hform : RecordForm room n form)
    (h : (Protowire.merge S nesting m (form ++ rest)).error? = none) :
    ∃ r m', Step S nesting n form r m m' ∧
      Protowire.merge S nesting m (form ++ rest) = Protowire.merge S nesting m' rest := by
  obtain hnil | ⟨hne, e, rest', hr⟩ | ⟨r, rest', m', e?, hr, _, hafter⟩ :=
    merge_cases S nesting m (form ++ rest)
  · obtain ⟨tag, wire, value, htag, _, rfl⟩ := hform
    obtain ⟨b, bs, hcons⟩ := htag.append_eq_cons (value ++ rest)
    rw [List.append_assoc, hcons] at hnil
    cases hnil
  · rw [merge_error hne hr] at h
    cases h
  · obtain ⟨rfl, hread, hfield⟩ := Record.form_of_read_complete hform hr
    rw [merge_record hr, hafter] at h
    cases e? with
    | some e => cases h
    | none =>
      have hstep : Step S nesting n form r m m' := ⟨hread, hfield, hafter⟩
      exact ⟨r, m', hstep, hstep.merge _⟩

/-- A field that has nothing to do with the record's stays as it is. -/
theorem get?_of_apart (hT : (S.type m.type).WellFormed types)
    (h : Step S nesting n form r m m') (hapart : (S.type m.type).Apart n k) :
    m'.get? k = m.get? k := by
  have hget := (h.localAt hT).get?_of_apart hapart rfl
  rwa [h.after] at hget

/-- Where another message agrees with `m` in the record's field, the record does the same to it. -/
theorem agree (hT : (S.type m.type).WellFormed types) (h : Step S nesting n form r m m')
    (htype : m₁.type = m.type) (hn : m₁.get? n = m.get? n) :
    ∃ m₁', Step S nesting n form r m₁ m₁' ∧ ∀ k, m₁.get? k = m.get? k → m₁'.get? k = m'.get? k := by
  obtain ⟨herror, hget⟩ := (h.localAt hT).agree (htype ▸ rfl) rfl hn
  simp only [h.after] at herror hget
  exact ⟨_, ⟨htype ▸ h.form, htype ▸ h.field, Prod.ext rfl herror⟩, hget⟩

/-- Two records of fields that have nothing to do with each other may come in either order. -/
theorem comm (hT : (S.type m.type).WellFormed types) (hm : FieldMap.Ascending m.fields)
    (hapart : (S.type m.type).Apart n k) (h : Step S nesting n form r m m₁)
    (h' : Step S nesting k form' r' m₁ m₂) :
    ∃ m₁', Step S nesting k form' r' m m₁' ∧ Step S nesting n form r m₁' m₂ := by
  have htype := h.type
  have hg := h.localAt hT
  have hh := h'.localAt (htype ▸ hT)
  rw [htype] at hh
  have htypeK := m.type_after S nesting r'
  obtain ⟨herrorK, herrorN, hget⟩ := hg.comm hh hapart rfl (by rw [h.after, htype]) (by rw [htypeK])
  simp only [h.after, h'.after] at herrorK herrorN hget
  have hk : Step S nesting k form' r' m (m.after S nesting r').1 :=
    ⟨htype ▸ h'.form, htype ▸ h'.field, Prod.ext rfl herrorK.symm⟩
  refine ⟨_, hk, ⟨htypeK.symm ▸ h.form, htypeK.symm ▸ h.field, Prod.ext ?_ herrorN⟩⟩
  have htype' := (Message.type_after S nesting (m.after S nesting r').1 r).trans htypeK
  refine Message.ext_get? (htype'.trans (h'.type.trans htype).symm) ?_ ?_ fun j => (hget j).symm
  · exact Message.ascending_after (hk.ascending hm) r
  · exact h'.ascending (h.ascending hm)

end Step

end Protowire
