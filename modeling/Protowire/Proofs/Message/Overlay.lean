import Protowire.Proofs.FieldMap
import Protowire.Proofs.Message.RoundTrip
import Protowire.Writer

/-!
Merging the bytes of a message is merging the message. The structural merge of two messages is said
without any bytes: a scalar replaces, elements come behind the elements that are there, a message is
merged into the one that is there, and a member of a oneof group drives out the other members. A
written field does to a message just what the field itself does to it, so the bytes are followed
field by field; the induction is on the messages in the merged one.
-/

namespace Protowire

open Reader Wire

mutual

/-- The structural merge of a message into `m`. -/
def Message.overlay (S : Schema) (m : Message) : Message → Message
  | ⟨_, fields⟩ =>
    let kept k := !fields.any fun p => (S.type m.type).excludes p.1 k
    ⟨m.type, (FieldMap.keep m.fields kept).insertAll (overlayFields S m fields)⟩

/-- What becomes of a value that comes into a field that held `old?`. -/
def Value.overlay (S : Schema) (old? : Option Value) : Value → Value
  | .message y =>
    .message
      (match old?.bind Value.message? with
        | some x => x.overlay S y
        | none => y)
  | .list items => .list ((old?.bind Value.list?).getD [] ++ items)
  | v => v

def overlayFields (S : Schema) (m : Message) : List (Nat × Value) → List (Nat × Value)
  | [] => []
  | (n, v) :: rest => (n, v.overlay S (m.get? n)) :: overlayFields S m rest

end

/-- What the structural merge of `m₂` into `m₁` holds, field by field. -/
structure Message.Overlaid (S : Schema) (m₁ m₂ m : Message) : Prop where
  type : m.type = m₁.type
  /-- What `m₂` leaves unset and does not exclude is as it was. -/
  kept : ∀ k, m₂.get? k = none →
    (∀ n, m₂.get? n ≠ none → (S.type m₁.type).excludes n k = false) → m.get? k = m₁.get? k
  /-- Of a oneof group in which `m₂` sets a member, no other member remains. -/
  displaced : ∀ n k, m₂.get? n ≠ none → (S.type m₁.type).excludes n k → m.get? k = none
  scalar : ∀ n f s v, (S.type m₁.type).field? n = some f → f.repeated = false →
    f.kind = .scalar s → m₂.get? n = some v → m.get? n = some v
  elements : ∀ n f, (S.type m₁.type).field? n = some f → f.repeated →
    m.items n = m₁.items n ++ m₂.items n
  /-- Messages that both set are merged in the same way. -/
  merged : ∀ n x y, m₁.message? n = some x → m₂.message? n = some y →
    m.message? n = some (x.overlay S y)
  taken : ∀ n v, m₁.get? n = none → m₂.get? n = some v → m.get? n = some v

variable {S : Schema} {nesting : Nesting} {m m₁ m₂ : Message} {f : Field} {n : Nat}

/-! ### Field by field -/

theorem get?_overlayFields (S : Schema) (m : Message) (fields : FieldMap Value) (k : Nat) :
    FieldMap.get? (overlayFields S m fields) k =
      (FieldMap.get? fields k).map (Value.overlay S (m.get? k)) := by
  induction fields with
  | nil => rfl
  | cons p fields ih =>
    obtain ⟨j, v⟩ := p
    rw [overlayFields, FieldMap.get?_cons, FieldMap.get?_cons, ih]
    split
    · rename_i hk
      rw [hk]
      rfl
    · rfl

theorem map_fst_overlayFields (S : Schema) (m : Message) (fields : FieldMap Value) :
    (overlayFields S m fields).map Prod.fst = fields.map Prod.fst := by
  induction fields with
  | nil => rfl
  | cons p fields ih => rw [overlayFields, List.map_cons, List.map_cons, ih]

theorem FieldMap.Ascending.overlayFields {fields : FieldMap Value} (h : fields.Ascending)
    (S : Schema) (m : Message) : FieldMap.Ascending (overlayFields S m fields) := by
  have hnumbers : (fields.map Prod.fst).Pairwise (· < ·) := List.pairwise_map.mpr h
  rw [← map_fst_overlayFields S m] at hnumbers
  exact List.pairwise_map.mp hnumbers

namespace Message

@[simp] theorem type_overlay (S : Schema) (m x : Message) : (m.overlay S x).type = m.type := by
  cases x
  rfl

theorem ascending_overlay (hm : FieldMap.Ascending m.fields) (S : Schema) (x : Message) :
    FieldMap.Ascending (m.overlay S x).fields := by
  cases x
  exact (hm.keep _).insertAll _

/-- All that is known of a structural merge later on. -/
theorem get?_overlay {x : Message} (h : FieldMap.Ascending x.fields) (S : Schema) (m : Message)
    (k : Nat) :
    (m.overlay S x).get? k =
      match x.get? k with
      | some v => some (v.overlay S (m.get? k))
      | none =>
        if x.fields.any fun p => (S.type m.type).excludes p.1 k then none else m.get? k := by
  obtain ⟨t, fields⟩ := x
  have hx : (⟨t, fields⟩ : Message).get? k = FieldMap.get? fields k := rfl
  rw [hx, overlay, get?, FieldMap.get?_insertAll _ (h.overlayFields S m), get?_overlayFields,
    FieldMap.get?_keep]
  cases FieldMap.get? fields k with
  | some v => rfl
  | none => cases fields.any fun p => (S.type m.type).excludes p.1 k <;> rfl

theorem overlay_empty (hm : FieldMap.Ascending m.fields) (t : TypeId) :
    m.overlay S ⟨t, []⟩ = m :=
  ext_get? (type_overlay S m _) (ascending_overlay hm S _) hm
    (get?_overlay (x := ⟨t, []⟩) List.Pairwise.nil S m)

/-- The structural merge goes on at its end: one more field comes in and drives out what it
excludes. -/
theorem overlay_snoc {t : TypeId} {front : FieldMap Value} {v : Value} {r : Message}
    (hm : FieldMap.Ascending m.fields) (hr : FieldMap.Ascending r.fields) (htype : r.type = m.type)
    (hfront : FieldMap.Ascending (front ++ [(n, v)]))
    (hexcluded : ∀ k, (S.type m.type).excludes n k → (⟨t, front⟩ : Message).get? k = none)
    (hget : ∀ k, r.get? k =
      if k = n then some (v.overlay S (m.get? n))
      else if (S.type m.type).excludes n k then none else (m.overlay S ⟨t, front⟩).get? k) :
    r = m.overlay S ⟨t, front ++ [(n, v)]⟩ := by
  obtain ⟨hbefore, _, hlast⟩ := List.pairwise_append.mp hfront
  have hsmaller : ∀ p ∈ front, p.1 < n := fun p hp => hlast p hp (n, v) List.mem_cons_self
  have hsnoc (k : Nat) : (⟨t, front ++ [(n, v)]⟩ : Message).get? k =
      if k = n then some v else (⟨t, front⟩ : Message).get? k := FieldMap.get?_snoc hsmaller v k
  refine ext_get? (htype.trans (type_overlay S m _).symm) hr (ascending_overlay hm S _) fun k => ?_
  rw [hget, get?_overlay (x := ⟨t, front ++ [(n, v)]⟩) hfront,
    get?_overlay (x := ⟨t, front⟩) hbefore, hsnoc]
  by_cases hk : k = n
  · rw [if_pos hk, if_pos hk, hk]
  · rw [if_neg hk, if_neg hk, List.any_append]
    by_cases hexcludes : (S.type m.type).excludes n k
    · rw [if_pos hexcludes, hexcluded k hexcludes]
      simp [hexcludes]
    · rw [Bool.not_eq_true] at hexcludes
      rw [hexcludes, List.any_cons, List.any_nil, hexcludes, Bool.or_false, Bool.or_false]
      rfl

/-- What a written field does to a message. -/
def overlayField (S : Schema) (m : Message) (f : Field) : Value → Message
  | .list items => m.appendItems f.number items
  | .message y =>
    m.takeMessage S f
      (match m.target? f with
        | some x => x.overlay S y
        | none => y)
  | v => m.take S f v

theorem get?_store (hS : S.WellFormed) {v : Value} (hf : (S.type m.type).field? n = some f)
    (hsingular : f.repeated = false) (hpresence : f.tracksPresence = false → v.isDefault = false)
    (k : Nat) :
    (m.store S f v).get? k =
      if k = n then some v else if (S.type m.type).excludes n k then none else m.get? k := by
  have hkeep : (!f.tracksPresence && v.isDefault) = false := by
    cases htracks : f.tracksPresence with
    | true => rfl
    | false => exact hpresence htracks
  simp only [store, hkeep, Bool.false_eq_true, ↓reduceIte, MessageType.number_of_field? hf,
    get?_insert, get?_clearAll, (hS.type _).mem_rivals_iff hf hsingular]

theorem get?_appendItems (m : Message) (n : Nat) {items : List Value} (hitems : items ≠ [])
    (k : Nat) :
    (m.appendItems n items).get? k =
      if k = n then some (.list (m.items n ++ items)) else m.get? k := by
  rw [appendItems, if_neg (by simpa using hitems), get?_insert]

/-- A message that is there is replaced in its place, since nothing that its field excludes is set.
-/
theorem get?_takeMessage (hS : S.WellFormed) (hm : m.Canonical S)
    (hf : (S.type m.type).field? n = some f) (hsingular : f.repeated = false) (x : Message)
    (k : Nat) :
    (m.takeMessage S f x).get? k =
      if k = n then some (.message x)
      else if (S.type m.type).excludes n k then none else m.get? k := by
  have hnumber := MessageType.number_of_field? hf
  rw [takeMessage]
  split
  · rename_i htarget
    have hset : m.get? n ≠ none := by
      rw [← hnumber, (target?_eq_some_iff.mp htarget).2]
      exact Option.some_ne_none _
    rw [hnumber, get?_insert]
    by_cases hexcludes : (S.type m.type).excludes n k
    · rw [if_pos hexcludes, hm.get?_of_excludes hexcludes hset]
    · rw [if_neg hexcludes]
  · rw [take_of_singular hsingular]
    exact get?_store hS hf hsingular (fun _ => rfl) k

theorem get?_overlayField {v : Value} (hS : S.WellFormed) (hm : m.Canonical S)
    (hf : (S.type m.type).field? n = some f) (hv : f.Holds S v) (k : Nat) :
    (m.overlayField S f v).get? k =
      if k = n then some (v.overlay S (m.get? n))
      else if (S.type m.type).excludes n k then none else m.get? k := by
  have hnumber := MessageType.number_of_field? hf
  cases hv with
  | one hsingular haccepts hpresence =>
    cases hkind : f.kind with
    | scalar s =>
      have hstore : (m.take S f v).get? k =
          if k = n then some v else if (S.type m.type).excludes n k then none else m.get? k := by
        rw [take_of_singular hsingular]
        exact get?_store hS hf hsingular hpresence k
      rw [hkind] at haccepts
      cases v with
      | message y | list items => cases s <;> cases haccepts
      | _ => exact hstore
    | message t =>
      obtain ⟨y, rfl⟩ := Field.exists_message_of_accepts hkind haccepts
      rw [overlayField, get?_takeMessage hS hm hf hsingular, target?_of_singular hsingular,
        hnumber, Value.overlay]
      rfl
  | @many items hrepeated hitems =>
    rw [overlayField, hnumber, get?_appendItems m n hitems,
      (hS.type _).excludes_of_repeated hf hrepeated]
    rfl

end Message

/-! ### Along the bytes -/

/-- The bytes of a message merge into every message of its type as the message does. -/
def Message.Overlays (S : Schema) (x : Message) : Prop :=
  ∀ nesting m, m.Canonical S → m.type = x.type → x.height ≤ nesting.room →
    (x.encode S).length < 2 ^ 64 →
      merge S nesting m (x.encode S) = ⟨m.overlay S x, [], none⟩

/-- The record of a message merges it into the one that is there, or brings it in. -/
theorem merge_writeDelimited {t : TypeId} {y : Message} (hS : S.WellFormed) (hm : m.Canonical S)
    (hf : (S.type m.type).field? n = some f) (hkind : f.kind = .message t) (hy : y.Canonical S)
    (htype : y.type = t)
    (hoverlays : y.Overlays S) (hheight : y.height < nesting.room)
    (hlength : (writeDelimited n (y.encode S)).length < 2 ^ 64) (rest : List UInt8) :
    merge S nesting m (writeDelimited n (y.encode S) ++ rest) =
      merge S nesting (m.overlayField S f (.message y)) rest := by
  have hbytes := length_lt_of_writeDelimited hlength
  have hform := bodyForm_writeDelimited (hS.type _) hf hlength
  have hinside : y.height ≤ nesting.deeper.room := by
    rw [Nesting.room_deeper]
    omega
  obtain ⟨htarget, htargetType⟩ := hm.target hS hf hkind
  rw [merge_bodyForm hf hkind (by omega) hform, Message.after, Message.overlayField]
  cases hx : m.target? f with
  | none =>
    -- the bytes bring an empty message to what it is
    have hcarried := hy.carried hS nesting.deeper hbytes
    rw [Carries, if_pos hinside] at hcarried
    have hinner := hcarried []
    rw [List.append_nil, merge_nil, htype] at hinner
    simp only [Option.getD_none, hinner]
  | some x =>
    rw [hx] at htarget htargetType
    have hinner := hoverlays nesting.deeper x htarget (htargetType.trans htype.symm) hinside hbytes
    simp only [Option.getD_some, hinner]

theorem merge_encodeField {v : Value} (hS : S.WellFormed) (hm : m.Canonical S)
    (hf : (S.type m.type).field? n = some f) (hv : f.Holds S v) (hcanonical : v.Canonical S)
    (hoverlays : ∀ x ∈ v.messages, x.Overlays S) (hheight : v.height ≤ nesting.room)
    (hlength : (encodeField S f v).length < 2 ^ 64) (rest : List UInt8) :
    merge S nesting m (encodeField S f v ++ rest) =
      merge S nesting (m.overlayField S f v) rest := by
  have hmem := MessageType.mem_of_field? hf
  obtain rfl := MessageType.number_of_field? hf
  cases hv with
  | one hsingular haccepts hpresence =>
    cases hkind : f.kind with
    | scalar s =>
      rw [hkind] at haccepts
      rw [encodeField_scalar hkind haccepts hpresence] at hlength ⊢
      have htake : m.overlayField S f v = m.take S f v := by
        cases v with
        | message y | list items => cases s <;> cases haccepts
        | _ => rfl
      rw [htake]
      exact (carries_tagged hS hf hkind haccepts hlength).merge (Nat.zero_le _) rest
    | message t =>
      obtain ⟨y, rfl⟩ := Field.exists_message_of_accepts hkind haccepts
      have hy : y ∈ (Value.message y).messages := List.mem_singleton.mpr rfl
      have htype := (hcanonical y hy).type_eq hS (hS.type _) hmem hkind haccepts
      rw [encodeField_message haccepts] at hlength ⊢
      exact merge_writeDelimited hS hm hf hkind (hcanonical y hy) htype (hoverlays y hy) hheight
        hlength rest
  | @many items hrepeated hitems haccepts =>
    exact (carries_items hS hf hrepeated hitems haccepts hcanonical
      (fun x hx => (hcanonical x hx).carried hS) hlength).merge hheight rest

/-- What the merge of a message's bytes finds when it comes to a field: of the fields in front of it
none is excluded by it or excludes it. -/
theorem Message.Canonical.front {t : TypeId} {front back : FieldMap Value} {v : Value}
    (hx : (⟨t, front ++ (n, v) :: back⟩ : Message).Canonical S) :
    FieldMap.Ascending (front ++ [(n, v)]) ∧ front.get? n = none ∧
      (∀ k, (S.type t).excludes n k → front.get? k = none) ∧
      ∀ p ∈ front, (S.type t).excludes p.1 n = false := by
  have hascending := hx.shaped.ascending
  have hget {p : Nat × Value} (hp : p ∈ front ++ (n, v) :: back) :
      (⟨t, front ++ (n, v) :: back⟩ : Message).get? p.1 = some p.2 :=
    hascending.get?_eq_some_iff.mpr hp
  have hn := hget (p := (n, v)) (by simp)
  have hsmaller : ∀ p ∈ front, p.1 < n := fun p hp =>
    (List.pairwise_append.mp hascending).2.2 p hp (n, v) List.mem_cons_self
  refine ⟨?_, FieldMap.get?_eq_none_iff.mpr fun p hp => Nat.ne_of_lt (hsmaller p hp), ?_, ?_⟩
  · refine List.Pairwise.sublist ?_ hascending
    simp
  · intro k hexcludes
    have hnone := hx.get?_of_excludes hexcludes (by simp [hn])
    exact FieldMap.get?_eq_none_iff.mpr fun p hp =>
      FieldMap.get?_eq_none_iff.mp hnone p (List.mem_append_left _ hp)
  · intro p hp
    have hset := hget (List.mem_append_left ((n, v) :: back) hp)
    exact hx.excludes_eq_false (by simp [hset]) (by simp [hn])

/-- The induction is on the fields left to write; those in front of them are merged already. -/
theorem merge_encodeFields {t : TypeId} {front back : FieldMap Value} (hS : S.WellFormed)
    (hm : m.Canonical S) (htype : m.type = t)
    (hx : (⟨t, front ++ back⟩ : Message).Canonical S)
    (hfront : (m.overlay S ⟨t, front⟩).Canonical S)
    (hoverlays : ∀ p ∈ back, ∀ x ∈ p.2.messages, x.Overlays S)
    (hheight : fieldsHeight back ≤ nesting.room)
    (hlength : (encodeFields S (S.type t) back).length < 2 ^ 64) :
    merge S nesting (m.overlay S ⟨t, front⟩) (encodeFields S (S.type t) back) =
      ⟨m.overlay S ⟨t, front ++ back⟩, [], none⟩ := by
  induction back generalizing front with
  | nil => rw [encodeFields, List.append_nil, merge_nil]
  | cons p back ih =>
    obtain ⟨n, v⟩ := p
    obtain ⟨hhere, hothers⟩ := List.forall_mem_cons.mp hoverlays
    have hget : (⟨t, front ++ (n, v) :: back⟩ : Message).get? n = some v :=
      hx.shaped.ascending.get?_eq_some_iff.mpr (by simp)
    obtain ⟨f, hf, hholds⟩ := hx.shaped.stored n v hget
    obtain ⟨hascending, hnone, hexcluded, hexcludes⟩ := hx.front
    have hbefore : FieldMap.Ascending front := (List.pairwise_append.mp hascending).1
    rw [fieldsHeight] at hheight
    simp only [encodeFields, hf, List.length_append] at hlength ⊢
    have htype' : (m.overlay S ⟨t, front⟩).type = t := (Message.type_overlay S m _).trans htype
    have hf' : (S.type (m.overlay S ⟨t, front⟩).type).field? n = some f := htype' ▸ hf
    -- the field finds the value that the message had before anything was merged into it
    have hold : (m.overlay S ⟨t, front⟩).get? n = m.get? n := by
      have hany : (List.any front fun p => (S.type t).excludes p.1 n) = false := by
        simpa using hexcludes
      rw [Message.get?_overlay (x := ⟨t, front⟩) hbefore, htype, hany,
        show (⟨t, front⟩ : Message).get? n = none from hnone]
      rfl
    have hstep : ∀ rest, merge S nesting (m.overlay S ⟨t, front⟩) (encodeField S f v ++ rest) =
        merge S nesting ((m.overlay S ⟨t, front⟩).overlayField S f v) rest :=
      merge_encodeField hS hfront hf' hholds (hx.value hget) hhere (by omega) (by omega)
    have hend := hstep []
    rw [List.append_nil, merge_nil] at hend
    have hcanonical : ((m.overlay S ⟨t, front⟩).overlayField S f v).Canonical S := by
      have hmerged : (merge S nesting _ (encodeField S f v)).message.Canonical S := hfront.merge hS
      rwa [hend] at hmerged
    have htype'' : ((m.overlay S ⟨t, front⟩).overlayField S f v).type = m.type := by
      have hmerged := type_merge S nesting (m.overlay S ⟨t, front⟩) (encodeField S f v)
      rwa [hend, Message.type_overlay] at hmerged
    have hnext : (m.overlay S ⟨t, front⟩).overlayField S f v =
        m.overlay S ⟨t, front ++ [(n, v)]⟩ := by
      refine Message.overlay_snoc hm.shaped.ascending hcanonical.shaped.ascending htype''
        hascending (htype ▸ hexcluded) fun k => ?_
      rw [Message.get?_overlayField hS hfront hf' hholds, hold, htype', htype]
    have hsplit := (List.append_cons front (n, v) back).symm
    have hrest := ih (hsplit ▸ hx) (hnext ▸ hcanonical) hothers (by omega) (by omega)
    rw [hstep, hnext, hrest, hsplit]

/-- The induction is on the messages in the message. -/
theorem Message.Canonical.overlays {x : Message} (hS : S.WellFormed) (hx : x.Canonical S) :
    x.Overlays S := by
  induction hx with
  | @intro x shaped nested ih =>
    obtain ⟨t, fields⟩ := x
    intro nesting m hm htype hheight hlength
    rw [Message.encode] at hlength ⊢
    rw [Message.height] at hheight
    have hx : (⟨t, [] ++ fields⟩ : Message).Canonical S := .intro shaped nested
    have hstart : m.overlay S ⟨t, []⟩ = m := Message.overlay_empty hm.shaped.ascending t
    have hmerged := merge_encodeFields hS hm htype hx (hstart.symm ▸ hm)
      (fun p hp x hx => ih p.1 p.2 (shaped.ascending.get?_eq_some_iff.mpr hp) x hx) hheight hlength
    rwa [hstart] at hmerged

/-! ### What the merge holds -/

theorem Scalar.overlay_of_accepts {s : Scalar} {v : Value} (h : s.accepts v) (old? : Option Value) :
    v.overlay S old? = v := by
  cases v with
  | message y | list items => cases s <;> cases h
  | _ => rfl

/-- What comes into an unset field is what it is. -/
theorem Value.overlay_none (S : Schema) (v : Value) : v.overlay S none = v := by
  cases v <;> rfl

theorem Message.Canonical.overlaid (hS : S.WellFormed) (hm₂ : m₂.Canonical S)
    (htype : m₁.type = m₂.type) : Message.Overlaid S m₁ m₂ (m₁.overlay S m₂) := by
  have hget := get?_overlay hm₂.shaped.ascending S m₁
  have hset {n : Nat} {v : Value} (hv : m₂.get? n = some v) :
      (m₁.overlay S m₂).get? n = some (v.overlay S (m₁.get? n)) := by
    rw [hget, hv]
  have hunset {k : Nat} (hk : m₂.get? k = none) : (m₁.overlay S m₂).get? k =
      if m₂.fields.any fun p => (S.type m₁.type).excludes p.1 k then none else m₁.get? k := by
    rw [hget, hk]
  have hkept (k : Nat) (hk : m₂.get? k = none)
      (hfree : ∀ n, m₂.get? n ≠ none → (S.type m₁.type).excludes n k = false) :
      (m₁.overlay S m₂).get? k = m₁.get? k := by
    have hany : (m₂.fields.any fun p => (S.type m₁.type).excludes p.1 k) = false := by
      rw [List.any_eq_false]
      intro p hp
      have hp' : m₂.get? p.1 = some p.2 := hm₂.shaped.ascending.get?_eq_some_iff.mpr hp
      rw [hfree p.1 (by simp [hp'])]
      exact Bool.false_ne_true
    rw [hunset hk, hany]
    rfl
  refine ⟨type_overlay .., hkept, ?_, ?_, ?_, ?_, ?_⟩
  · intro n k hn hexcludes
    have hk := hm₂.get?_of_excludes (htype ▸ hexcludes) hn
    obtain ⟨v, hv⟩ := Option.ne_none_iff_exists'.mp hn
    have hmem : (n, v) ∈ m₂.fields := hm₂.shaped.ascending.get?_eq_some_iff.mp hv
    rw [hunset hk, if_pos (List.any_eq_true.mpr ⟨(n, v), hmem, hexcludes⟩)]
  · intro n f s v hf hsingular hkind hv
    cases hm₂.holds (htype ▸ hf) hv with
    | one _ haccepts =>
      rw [hkind] at haccepts
      rw [hset hv, Scalar.overlay_of_accepts haccepts]
    | many hrepeated => simp [hsingular] at hrepeated
  · intro n f hf hrepeated
    cases hv : m₂.get? n with
    | none =>
      have hsame := hkept n hv fun k _ => by
        rw [MessageType.excludes_comm, (hS.type _).excludes_of_repeated hf hrepeated]
      simp [Message.items, hsame, hv]
    | some v =>
      cases hm₂.holds (htype ▸ hf) hv with
      | one hsingular => simp [hrepeated] at hsingular
      | @many items => simp [Message.items, hset hv, hv, Value.overlay, Value.list?]
  · intro n x y hx hy
    rw [message?_eq_some_iff] at hx hy ⊢
    rw [hset hy, hx]
    rfl
  · intro n v hnone hv
    rw [hset hv, hnone, Value.overlay_none]

/-- The bytes of a message merge as the message does, and so does what was written behind it. -/
theorem merge_encode_overlays (hS : S.WellFormed) (hm₁ : m₁.Canonical S) (hm₂ : m₂.Canonical S)
    (htype : m₁.type = m₂.type) (hheight : m₂.height ≤ 100)
    (hlength : (m₂.encode S).length < 2 ^ 64) :
    m₁.mergeBytes S (m₂.encode S) = ⟨m₁.overlay S m₂, [], none⟩ ∧
      Message.Overlaid S m₁ m₂ (m₁.overlay S m₂) ∧
      ∀ w, w = (Writer.empty.write (m₁.encode S)).write (m₂.encode S) → m₁.height ≤ 100 →
        w.size ≤ Limits.default.size →
          Message.decode S m₁.type Limits.default w.flush.1 = .ok (m₁.overlay S m₂) := by
  have hmerge := hm₂.overlays hS Limits.default.nesting m₁ hm₁ htype hheight hlength
  refine ⟨hmerge, hm₂.overlaid hS htype, ?_⟩
  rintro w rfl hheight₁ hsize
  have hbytes : ((Writer.empty.write (m₁.encode S)).write (m₂.encode S)).bytes =
      m₁.encode S ++ m₂.encode S := rfl
  have hfits : (m₁.encode S ++ m₂.encode S).length ≤ Limits.default.size := hsize
  have hsmall : Limits.default.size < 2 ^ 64 := by decide
  rw [List.length_append] at hfits
  have hcarried := (hm₁.carried hS Limits.default.nesting (by omega)).merge hheight₁
    (m₂.encode S)
  rw [hmerge] at hcarried
  rw [Message.decode_eq_ok_iff, Writer.flush, hbytes, hcarried]
  exact ⟨hsize, rfl, rfl⟩

section

open Vision

/-- An operation that has failed: its error stands where an answer would. -/
def failedOperation : Message :=
  ⟨TypeName.operation.id, [(1, .string "y"), (2, .message ⟨TypeName.any.id, [(2, .bytes [7])]⟩),
    (3, .bool true), (4, .message ⟨TypeName.status.id, [(1, .int32 5)]⟩)]⟩

theorem canonical_failedOperation : failedOperation.Canonical schema := by
  have hread : (merge schema Limits.default.nesting (Message.empty TypeName.operation.id)
      [10, 1, 121, 18, 3, 18, 1, 7, 24, 1, 34, 2, 8, 5]).message = failedOperation := by
    cbv
  rw [← hread]
  exact (Message.Canonical.empty (id_lt_size _)).merge schema_wellFormed

/-- The answer drives out the error, and the two pieces of metadata become one. -/
theorem answered_after_failure :
    failedOperation.mergeBytes schema (answeredOperation.encode schema) =
        ⟨⟨TypeName.operation.id, [(1, .string "x"),
          (2, .message ⟨TypeName.any.id, [(1, .string "t"), (2, .bytes [7])]⟩), (3, .bool true),
          (5, .message ⟨TypeName.any.id, []⟩)]⟩, [], none⟩ ∧
      (failedOperation.overlay schema answeredOperation).get? 4 = none ∧
      Message.decode schema TypeName.operation.id Limits.default
          ((Writer.empty.write (failedOperation.encode schema)).write
            (answeredOperation.encode schema)).flush.1 =
        .ok (failedOperation.overlay schema answeredOperation) := by
  have hheight : answeredOperation.height = 1 := by rfl
  have hlength : (answeredOperation.encode schema).length = 10 := by cbv
  have hsize : ((Writer.empty.write (failedOperation.encode schema)).write
      (answeredOperation.encode schema)).size = 24 := by
    cbv
  have hoverlay : failedOperation.overlay schema answeredOperation =
      ⟨TypeName.operation.id, [(1, .string "x"),
        (2, .message ⟨TypeName.any.id, [(1, .string "t"), (2, .bytes [7])]⟩), (3, .bool true),
        (5, .message ⟨TypeName.any.id, []⟩)]⟩ := by
    cbv
  obtain ⟨hmerge, hoverlaid, hwritten⟩ := merge_encode_overlays schema_wellFormed
    canonical_failedOperation canonical_answeredOperation rfl (by omega) (by omega)
  refine ⟨hoverlay ▸ hmerge, hoverlaid.displaced 5 4 (by cbv; simp) (by cbv), ?_⟩
  exact hwritten _ rfl (by decide) (by rw [hsize]; decide)

end

end Protowire
