import Protowire.Message.Encode
import Protowire.Proofs.Message.Merge
import Protowire.Proofs.Vision.Schema
import Protowire.Proofs.Wire.Written

/-!
A canonical message comes back from its bytes, bit for bit, unless they are more than the decoder
takes or nest deeper than it goes; then this is the error. Each piece of the bytes adds its field to
the fields before it, or stops the decoder for want of room for the messages in it; pieces compose
(`Carries.append`), and so the whole follows the message field by field.
-/

namespace Protowire

open Reader Wire

/-! ### How deep messages nest -/

mutual

/-- How many levels of messages there are below a message. -/
def Message.height : Message → Nat
  | ⟨_, fields⟩ => fieldsHeight fields

def Value.height : Value → Nat
  | .message m => m.height + 1
  | .list items => itemsHeight items
  | _ => 0

def fieldsHeight : List (Nat × Value) → Nat
  | [] => 0
  | (_, v) :: rest => max v.height (fieldsHeight rest)

def itemsHeight : List Value → Nat
  | [] => 0
  | v :: rest => max v.height (itemsHeight rest)

end

variable {S : Schema} {nesting : Nesting} {m m' m'' : Message} {f : Field} {n : Nat}
  {form form' : List UInt8} {height height' : Nat}

theorem Scalar.height_of_accepts {s : Scalar} {v : Value} (h : s.accepts v) : v.height = 0 := by
  cases v <;> first | rfl | (cases s <;> cases h)

theorem itemsHeight_of_accepts {s : Scalar} {vs : List Value} (h : ∀ v ∈ vs, s.accepts v) :
    itemsHeight vs = 0 := by
  induction vs with
  | nil => rfl
  | cons v vs ih =>
    obtain ⟨hv, hvs⟩ := List.forall_mem_cons.mp h
    rw [itemsHeight, Scalar.height_of_accepts hv, ih hvs, Nat.max_self]

/-! ### What a piece of the bytes does -/

/-- With messages nested `height` deep in it, `form` turns `m` into `m'`; where there is less room
than that, it ends the decoding. -/
def Carries (S : Schema) (nesting : Nesting) (height : Nat) (m : Message) (form : List UInt8)
    (m' : Message) : Prop :=
  if height ≤ nesting.room then ∀ rest, merge S nesting m (form ++ rest) = merge S nesting m' rest
  else
    ∀ rest, (merge S nesting m (form ++ rest)).error? =
      some (.recursionLimitExceeded nesting.limit)

namespace Carries

theorem nil : Carries S nesting 0 m [] m := by
  rw [Carries, if_pos (Nat.zero_le _)]
  exact fun _ => rfl

theorem append (h : Carries S nesting height m form m')
    (h' : Carries S nesting height' m' form' m'') :
    Carries S nesting (max height height') m (form ++ form') m'' := by
  simp only [Carries, List.append_assoc] at *
  -- the first piece to lack room ends the decoding, whatever stands behind it
  by_cases hheight : height ≤ nesting.room
  · rw [if_pos hheight] at h
    by_cases hheight' : height' ≤ nesting.room
    · rw [if_pos hheight'] at h'
      rw [if_pos (by omega)]
      intro rest
      rw [h, h']
    · rw [if_neg hheight'] at h'
      rw [if_neg (by omega)]
      intro rest
      rw [h, h']
  · rw [if_neg hheight] at h
    rw [if_neg (by omega)]
    exact fun rest => h _

/-- A record without a message in it always finds room. -/
theorem record {r : Record} (hrecord : Record.Form (S.type m.type) nesting.room form r)
    (hafter : m.after S nesting r = (m', none)) : Carries S nesting 0 m form m' := by
  rw [Carries, if_pos (Nat.zero_le _)]
  exact merge_form hrecord hafter

/-- The record of a message needs one level more than what is in the message. -/
theorem body {t : TypeId} {x : Message} {bytes : List UInt8}
    (hf : (S.type m.type).field? n = some f) (hkind : f.kind = .message t)
    (htarget : m.target? f = none) (hform : BodyForm n form bytes)
    (hbody : Carries S nesting.deeper height (Message.empty t) bytes x) :
    Carries S nesting (height + 1) m form (m.take S f (.message x)) := by
  have htake : m.takeMessage S f x = m.take S f (.message x) := by
    rw [Message.takeMessage, htarget]
  rw [Carries]
  by_cases hroom : nesting.room = 0
  · rw [if_neg (by omega)]
    exact fun rest => (merge_bodyForm_of_room_eq_zero hf hkind hroom hform rest).1
  · have hpos : 0 < nesting.room := by omega
    -- one level of room is spent on the record, the rest is left to its body
    rw [Carries, Nesting.room_deeper] at hbody
    split
    · rename_i hheight
      rw [if_pos (by omega)] at hbody
      have hinner : merge S nesting.deeper (Message.empty t) bytes = ⟨x, [], none⟩ := by
        have := hbody []
        rwa [List.append_nil, merge_nil] at this
      intro rest
      rw [merge_bodyForm hf hkind hpos hform]
      simp only [Message.after, htarget, Option.getD_none, hinner, htake]
    · rename_i hheight
      rw [if_neg (by omega)] at hbody
      have hinner : (merge S nesting.deeper (Message.empty t) bytes).error? =
          some (.recursionLimitExceeded nesting.limit) := by
        have := hbody []
        rwa [List.append_nil] at this
      intro rest
      rw [merge_bodyForm hf hkind hpos hform]
      simp only [Message.after, htarget, Option.getD_none, hinner]

theorem merge (h : Carries S nesting height m form m') (hheight : height ≤ nesting.room)
    (rest : List UInt8) :
    Protowire.merge S nesting m (form ++ rest) = Protowire.merge S nesting m' rest := by
  rw [Carries, if_pos hheight] at h
  exact h rest

end Carries

/-! ### What the written fields do -/

section

variable {T : MessageType} {types room : Nat} {s : Scalar} {v : Value} {vs : List Value}
  {bytes : List UInt8} (hT : T.WellFormed types) (hf : T.field? n = some f)

include hT hf

theorem tagForm_of_field (wire : WireType) : TagForm (writeTag n wire) (n, wire) := by
  have hlegal := hT.legal f (MessageType.mem_of_field? hf)
  rw [MessageType.number_of_field? hf] at hlegal
  exact tagForm_writeTag wire hlegal.1 hlegal.2

theorem Record.form_writeTagged (hkind : f.kind = .scalar s) (hv : s.accepts v)
    (hlength : (s.writeTagged n v).length < 2 ^ 64) :
    Record.Form T room (s.writeTagged n v) (.value f v) := by
  rw [Scalar.writeTagged, if_pos hv] at hlength ⊢
  rw [List.length_append] at hlength
  have htag := tagForm_of_field hT hf s.wire
  exact .value hf hkind htag (Scalar.form_write hv (by omega))

/-- Of the values of a run those that fit are written. -/
theorem Record.form_writePacked (hkind : f.kind = .scalar s) (hrepeated : f.repeated)
    (hpackable : s.packable) (hlength : (s.writePacked n vs).length < 2 ^ 64) :
    Record.Form T room (s.writePacked n vs) (.packed f (vs.filter s.accepts)) := by
  rw [Scalar.writePacked] at hlength ⊢
  have htag := tagForm_of_field hT hf .lengthDelimited
  have hregion := length_lt_of_writeDelimited hlength
  have hfit : ∀ v ∈ vs.filter s.accepts, s.accepts v := fun v hv => (List.mem_filter.mp hv).2
  exact .packed hf hkind hrepeated hpackable htag (delimitedForm_delimited hregion)
    (Scalar.runForm_write hfit hregion)

theorem bodyForm_writeDelimited (hlength : (writeDelimited n bytes).length < 2 ^ 64) :
    BodyForm n (writeDelimited n bytes) bytes := by
  have hbytes := length_lt_of_writeDelimited hlength
  exact ⟨_, _, tagForm_of_field hT hf .lengthDelimited, delimitedForm_delimited hbytes, rfl⟩

end

theorem carries_tagged {s : Scalar} {v : Value} (hS : S.WellFormed)
    (hf : (S.type m.type).field? n = some f) (hkind : f.kind = .scalar s) (hv : s.accepts v)
    (hlength : (s.writeTagged n v).length < 2 ^ 64) :
    Carries S nesting 0 m (s.writeTagged n v) (m.take S f v) := by
  exact .record (Record.form_writeTagged (hS.type _) hf hkind hv hlength) rfl

theorem carries_packed {s : Scalar} {vs : List Value} (hS : S.WellFormed)
    (hf : (S.type m.type).field? n = some f) (hkind : f.kind = .scalar s) (hrepeated : f.repeated)
    (hpackable : s.packable) (hvs : ∀ v ∈ vs, s.accepts v)
    (hlength : (s.writePacked n vs).length < 2 ^ 64) :
    Carries S nesting 0 m (s.writePacked n vs) (m.appendItems n vs) := by
  have hall : vs.filter s.accepts = vs := List.filter_eq_self.mpr hvs
  refine .record (Record.form_writePacked (hS.type _) hf hkind hrepeated hpackable hlength) ?_
  rw [Message.after, MessageType.number_of_field? hf, hall]

theorem Message.take_of_repeated (hf : (S.type m.type).field? n = some f) (hrepeated : f.repeated)
    (v : Value) : m.take S f v = m.appendItems n [v] := by
  rw [Message.take, if_pos hrepeated, MessageType.number_of_field? hf]

theorem carries_elements {s : Scalar} {vs : List Value} (hS : S.WellFormed)
    (hf : (S.type m.type).field? n = some f) (hkind : f.kind = .scalar s) (hrepeated : f.repeated)
    (hvs : ∀ v ∈ vs, s.accepts v) (hlength : (vs.flatMap (s.writeTagged n)).length < 2 ^ 64) :
    Carries S nesting 0 m (vs.flatMap (s.writeTagged n)) (m.appendItems n vs) := by
  induction vs generalizing m with
  | nil => exact .nil
  | cons v vs ih =>
    obtain ⟨hv, hvs⟩ := List.forall_mem_cons.mp hvs
    rw [List.flatMap_cons, List.length_append] at hlength
    have hfirst : Carries S nesting 0 m (s.writeTagged n v) (m.take S f v) :=
      carries_tagged hS hf hkind hv (by omega)
    rw [Message.take_of_repeated hf hrepeated] at hfirst
    have hrest := ih (m := m.appendItems n [v]) (by rwa [Message.type_appendItems]) hvs (by omega)
    rw [Message.appendItems_appendItems] at hrest
    exact hfirst.append hrest

/-- The bytes of a message carry an empty message of its type to the message. -/
def Message.Carried (S : Schema) (x : Message) : Prop :=
  ∀ nesting, (x.encode S).length < 2 ^ 64 →
    Carries S nesting x.height (Message.empty x.type) (x.encode S) x

theorem carries_message {t : TypeId} {x : Message} (hS : S.WellFormed)
    (hf : (S.type m.type).field? n = some f) (hkind : f.kind = .message t)
    (htarget : m.target? f = none) (hx : x.Carried S) (htype : x.type = t)
    (hlength : (writeDelimited n (x.encode S)).length < 2 ^ 64) :
    Carries S nesting (x.height + 1) m (writeDelimited n (x.encode S))
      (m.take S f (.message x)) := by
  refine .body hf hkind htarget (bodyForm_writeDelimited (hS.type _) hf hlength) ?_
  rw [← htype]
  exact hx nesting.deeper (length_lt_of_writeDelimited hlength)

theorem carries_messages {t : TypeId} {items : List Value} (hS : S.WellFormed)
    (hf : (S.type m.type).field? n = some f) (hkind : f.kind = .message t) (hrepeated : f.repeated)
    (hitems : ∀ v ∈ items, ∃ x, v = .message x ∧ x.type = t ∧ x.Carried S)
    (hlength : (encodeMessages S n t items).length < 2 ^ 64) :
    Carries S nesting (itemsHeight items) m (encodeMessages S n t items)
      (m.appendItems n items) := by
  induction items generalizing m with
  | nil =>
    rw [encodeMessages, itemsHeight]
    exact .nil
  | cons v items ih =>
    obtain ⟨⟨x, rfl, htype, hx⟩, hothers⟩ := List.forall_mem_cons.mp hitems
    rw [encodeMessages, if_pos (by rw [htype])] at hlength ⊢
    rw [List.length_append] at hlength
    have htarget : m.target? f = none := Message.target?_of_repeated hrepeated
    have hfirst : Carries S nesting (x.height + 1) m _ (m.take S f (.message x)) :=
      carries_message hS hf hkind htarget hx htype (by omega)
    rw [Message.take_of_repeated hf hrepeated] at hfirst
    have hrest := ih (m := m.appendItems n [.message x]) (by rwa [Message.type_appendItems]) hothers
      (by omega)
    rw [Message.appendItems_appendItems] at hrest
    rw [itemsHeight, Value.height]
    exact hfirst.append hrest

/-! ### Field by field -/

/-- What the fields in front of the next one, `f`, are known to be. -/
structure Before (S : Schema) (t : TypeId) (f : Field) (front : FieldMap Value) : Prop where
  smaller : ∀ p ∈ front, p.1 < f.number
  rivals : f.repeated = false → ∀ k ∈ (S.type t).rivals f, front.get? k = none

namespace Before

variable {t : TypeId} {front : FieldMap Value} {v : Value}

theorem get? (h : Before S t f front) : front.get? f.number = none :=
  FieldMap.get?_eq_none_iff.mpr fun p hp => Nat.ne_of_lt (h.smaller p hp)

theorem insert (h : Before S t f front) (v : Value) :
    (⟨t, front⟩ : Message).insert f.number v = ⟨t, front ++ [(f.number, v)]⟩ := by
  rw [Message.insert, FieldMap.insert_of_forall_lt v h.smaller]

theorem take (h : Before S t f front) (hsingular : f.repeated = false)
    (hpresence : f.tracksPresence = false → v.isDefault = false) :
    (⟨t, front⟩ : Message).take S f v = ⟨t, front ++ [(f.number, v)]⟩ := by
  have hclear : (⟨t, front⟩ : Message).clearAll ((S.type t).rivals f) = ⟨t, front⟩ := by
    rw [Message.clearAll, FieldMap.eraseAll_of_get?_eq_none (h.rivals hsingular)]
  have hkeep : (!f.tracksPresence && v.isDefault) = false := by
    cases htracks : f.tracksPresence with
    | true => rfl
    | false => exact hpresence htracks
  rw [Message.take_of_singular hsingular, Message.store, hclear, hkeep]
  exact h.insert v

theorem appendItems (h : Before S t f front) {items : List Value} (hitems : items ≠ []) :
    (⟨t, front⟩ : Message).appendItems f.number items =
      ⟨t, front ++ [(f.number, .list items)]⟩ := by
  have hnone : (⟨t, front⟩ : Message).items f.number = [] := by
    rw [Message.items, Message.get?, h.get?]
    rfl
  rw [Message.appendItems, hnone, List.nil_append, if_neg (by simpa using hitems)]
  exact h.insert _

theorem target? (h : Before S t f front) : (⟨t, front⟩ : Message).target? f = none := by
  rw [Message.target?]
  split
  · rfl
  · rw [Message.message?, Message.get?, h.get?]
    rfl

end Before

theorem encodeField_scalar {s : Scalar} {v : Value} (hkind : f.kind = .scalar s)
    (hv : s.accepts v) (hpresence : f.tracksPresence = false → v.isDefault = false) :
    encodeField S f v = s.writeTagged f.number v := by
  have hwritten : (f.oneof.isNone && v.isDefault) = false := by
    cases ho : f.oneof with
    | some i => rfl
    | none => simpa using hpresence (by simp [Field.tracksPresence, ho, hkind, Kind.isMessage])
  cases v with
  | list items => cases s <;> cases hv
  | message x => cases s <;> cases hv
  | _ => simp only [encodeField, hkind, hwritten, Bool.false_eq_true, ↓reduceIte]

theorem encodeField_message {x : Message} (hx : f.kind.accepts S (.message x)) :
    encodeField S f (.message x) = writeDelimited f.number (x.encode S) := by
  rw [encodeField, if_pos hx]

theorem carries_writeList {s : Scalar} {vs : List Value} (hS : S.WellFormed)
    (hf : (S.type m.type).field? n = some f) (hkind : f.kind = .scalar s) (hrepeated : f.repeated)
    (hvs : ∀ v ∈ vs, s.accepts v) (hne : vs ≠ []) (hlength : (s.writeList n vs).length < 2 ^ 64) :
    Carries S nesting 0 m (s.writeList n vs) (m.appendItems n vs) := by
  rw [Scalar.writeList, if_neg (by simpa using hne)] at hlength ⊢
  by_cases hpackable : s.packable
  · rw [if_pos hpackable] at hlength ⊢
    exact carries_packed hS hf hkind hrepeated hpackable hvs hlength
  · rw [if_neg hpackable] at hlength ⊢
    exact carries_elements hS hf hkind hrepeated hvs hlength

/-- The elements of a repeated field come behind those that are there. -/
theorem carries_items {items : List Value} (hS : S.WellFormed)
    (hf : (S.type m.type).field? f.number = some f) (hrepeated : f.repeated) (hitems : items ≠ [])
    (haccepts : ∀ v ∈ items, f.kind.accepts S v) (hcanonical : (Value.list items).Canonical S)
    (hcarried : ∀ x ∈ (Value.list items).messages, x.Carried S)
    (hlength : (encodeField S f (.list items)).length < 2 ^ 64) :
    Carries S nesting (Value.list items).height m (encodeField S f (.list items))
      (m.appendItems f.number items) := by
  have hmem := MessageType.mem_of_field? hf
  cases hkind : f.kind with
  | scalar s =>
    rw [hkind] at haccepts
    have hencode : encodeField S f (.list items) = s.writeList f.number items := by
      rw [encodeField, hkind]
    rw [Value.height, itemsHeight_of_accepts haccepts]
    rw [hencode] at hlength ⊢
    exact carries_writeList hS hf hkind hrepeated haccepts hitems hlength
  | message u =>
    have hencode : encodeField S f (.list items) = encodeMessages S f.number u items := by
      rw [encodeField, hkind]
    rw [hencode] at hlength ⊢
    refine carries_messages hS hf hkind hrepeated (fun w hw => ?_) hlength
    have haccepts := haccepts w hw
    obtain ⟨x, rfl⟩ := Field.exists_message_of_accepts hkind haccepts
    have hx : x ∈ (Value.list items).messages := List.mem_filterMap.mpr ⟨_, hw, rfl⟩
    exact ⟨x, rfl, (hcanonical x hx).type_eq hS (hS.type _) hmem hkind haccepts, hcarried x hx⟩

/-- A written field comes behind the fields before it. -/
theorem carries_field {t : TypeId} {front : FieldMap Value} {v : Value} (hS : S.WellFormed)
    (hf : (S.type t).field? f.number = some f) (hfront : Before S t f front) (hv : f.Holds S v)
    (hcanonical : v.Canonical S) (hcarried : ∀ x ∈ v.messages, x.Carried S)
    (hlength : (encodeField S f v).length < 2 ^ 64) :
    Carries S nesting v.height ⟨t, front⟩ (encodeField S f v) ⟨t, front ++ [(f.number, v)]⟩ := by
  have hmem := MessageType.mem_of_field? hf
  cases hv with
  | one hsingular haccepts hpresence =>
    rw [← hfront.take hsingular hpresence]
    cases hkind : f.kind with
    | scalar s =>
      rw [hkind] at haccepts
      rw [encodeField_scalar hkind haccepts hpresence] at hlength ⊢
      rw [Scalar.height_of_accepts haccepts]
      exact carries_tagged hS hf hkind haccepts hlength
    | message u =>
      obtain ⟨x, rfl⟩ := Field.exists_message_of_accepts hkind haccepts
      have hx : x ∈ (Value.message x).messages := List.mem_singleton.mpr rfl
      have htype := (hcanonical x hx).type_eq hS (hS.type t) hmem hkind haccepts
      rw [encodeField_message haccepts] at hlength ⊢
      exact carries_message hS hf hkind hfront.target? (hcarried x hx) htype hlength
  | @many items hrepeated hitems haccepts =>
    rw [← hfront.appendItems hitems]
    exact carries_items hS hf hrepeated hitems haccepts hcanonical hcarried hlength

/-- In a canonical message the fields in front of a field are smaller, and its rivals are not among
them. -/
theorem Message.Canonical.before {t : TypeId} {front back : FieldMap Value} {v : Value}
    (hS : S.WellFormed) (hm : (⟨t, front ++ (n, v) :: back⟩ : Message).Canonical S)
    (hf : (S.type t).field? n = some f) : Before S t f front := by
  obtain rfl := MessageType.number_of_field? hf
  have hascending := List.pairwise_append.mp hm.shaped.ascending
  have hget : (⟨t, front ++ (f.number, v) :: back⟩ : Message).get? f.number = some v :=
    hm.shaped.ascending.get?_eq_some_iff.mpr (by simp)
  constructor
  · exact fun p hp => hascending.2.2 p hp (f.number, v) List.mem_cons_self
  · intro hsingular k hk
    obtain ⟨hne, group, hgroup, hn, hk⟩ :=
      (hS.type t).exists_group_of_mem_rivals hf hsingular hk
    have hnone : (⟨t, front ++ (f.number, v) :: back⟩ : Message).get? k = none := by
      by_contra h
      exact hne (hm.shaped.exclusive group hgroup k hk _ hn h (by simp [hget]))
    refine FieldMap.get?_eq_none_iff.mpr fun p hp => ?_
    exact FieldMap.get?_eq_none_iff.mp hnone p (List.mem_append_left _ hp)

/-- The induction is on the fields left to write; those in front of them are in place. -/
theorem carries_fields {t : TypeId} {front back : FieldMap Value} (hS : S.WellFormed)
    (hm : (⟨t, front ++ back⟩ : Message).Canonical S)
    (hcarried : ∀ p ∈ back, ∀ x ∈ p.2.messages, x.Carried S)
    (hlength : (encodeFields S (S.type t) back).length < 2 ^ 64) :
    Carries S nesting (fieldsHeight back) ⟨t, front⟩ (encodeFields S (S.type t) back)
      ⟨t, front ++ back⟩ := by
  induction back generalizing front with
  | nil =>
    rw [encodeFields, fieldsHeight, List.append_nil]
    exact .nil
  | cons p back ih =>
    obtain ⟨n, v⟩ := p
    obtain ⟨hhere, hrest⟩ := List.forall_mem_cons.mp hcarried
    have hget : (⟨t, front ++ (n, v) :: back⟩ : Message).get? n = some v :=
      hm.shaped.ascending.get?_eq_some_iff.mpr (by simp)
    obtain ⟨f, hf, hholds⟩ := hm.shaped.stored n v hget
    -- canonical up to here and behind, so the field finds its place at the end of the front
    have hfront := hm.before hS hf
    obtain rfl := MessageType.number_of_field? hf
    simp only [encodeFields, hf, List.length_append] at hlength ⊢
    have hfirst : Carries S nesting v.height ⟨t, front⟩ (encodeField S f v) _ :=
      carries_field hS hf hfront hholds (hm.value hget) hhere (by omega)
    have hsplit := (List.append_cons front (f.number, v) back).symm
    have hothers := ih (hsplit ▸ hm) hrest (by omega)
    rw [hsplit] at hothers
    exact hfirst.append hothers

/-- The induction is on the messages in the message. -/
theorem Message.Canonical.carried (hS : S.WellFormed) (hm : m.Canonical S) : m.Carried S := by
  induction hm with
  | @intro m shaped nested ih =>
    obtain ⟨t, fields⟩ := m
    intro nesting hlength
    rw [Message.encode] at hlength ⊢
    rw [Message.height]
    have hm : (⟨t, [] ++ fields⟩ : Message).Canonical S := .intro shaped nested
    refine carries_fields hS hm (fun p hp x hx => ?_) hlength
    exact ih p.1 p.2 (shaped.ascending.get?_eq_some_iff.mpr hp) x hx

/-- Decoding the bytes of a canonical message gives the message, or says by which limit it is too
long or too deep. The limit on the size is a word of 64 bits. -/
theorem decode_encode (hS : S.WellFormed) (hm : m.Canonical S) (limits : Limits)
    (hsize : limits.size < UInt64.size) :
    Message.decode S m.type limits (m.encode S) =
      if limits.size < (m.encode S).length then
        .error (.messageTooLarge (m.encode S).length limits.size)
      else if limits.recursion < m.height then
        .error (.recursionLimitExceeded limits.recursion)
      else .ok m := by
  rw [Message.decode_eq]
  split
  · rfl
  · rename_i hfits
    simp only [UInt64.size] at hsize
    have hcarried := hm.carried hS limits.nesting (by omega)
    have hroom : limits.nesting.room = limits.recursion := rfl
    rw [Carries, hroom] at hcarried
    split
    · rename_i hdeep
      rw [if_neg (by omega)] at hcarried
      have herror := hcarried []
      rw [List.append_nil] at herror
      rw [Merged.result, herror]
      rfl
    · rename_i hdeep
      rw [if_pos (by omega)] at hcarried
      have hmerged := hcarried []
      rw [List.append_nil, merge_nil] at hmerged
      rw [Merged.result, hmerged]

section

open Vision

/-- An operation with metadata and with an answer that holds nothing. -/
def answeredOperation : Message :=
  ⟨TypeName.operation.id, [(1, .string "x"), (2, .message ⟨TypeName.any.id, [(1, .string "t")]⟩),
    (5, .message ⟨TypeName.any.id, []⟩)]⟩

theorem canonical_answeredOperation : answeredOperation.Canonical schema := by
  have hdecode : Message.decode schema TypeName.operation.id Limits.default
      [10, 1, 120, 18, 3, 10, 1, 116, 42, 0] = .ok answeredOperation := by
    cbv
  obtain ⟨_, _, hm⟩ := Message.decode_eq_ok_iff.mp hdecode
  rw [← hm]
  exact (Message.Canonical.empty (id_lt_size _)).merge schema_wellFormed

/-- Ten bytes and one level of messages. -/
theorem answeredOperation_round_trip :
    Message.decode schema TypeName.operation.id Limits.default (answeredOperation.encode schema) =
        .ok answeredOperation ∧
      Message.decode schema TypeName.operation.id ⟨0, 10⟩ (answeredOperation.encode schema) =
        .error (.recursionLimitExceeded 0) ∧
      Message.decode schema TypeName.operation.id ⟨0, 9⟩ (answeredOperation.encode schema) =
        .error (.messageTooLarge 10 9) := by
  have hround := decode_encode schema_wellFormed canonical_answeredOperation
  have hlength : (answeredOperation.encode schema).length = 10 := by cbv
  have hheight : answeredOperation.height = 1 := by rfl
  rw [hlength, hheight] at hround
  exact ⟨hround Limits.default (by decide), hround ⟨0, 10⟩ (by decide), hround ⟨0, 9⟩ (by decide)⟩

end

end Protowire
