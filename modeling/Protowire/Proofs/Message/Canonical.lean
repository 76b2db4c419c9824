import Protowire.Message
import Protowire.Proofs.FieldMap
import Protowire.Proofs.Schema

/-!
Canonical messages: those that the checked writes and the decoder bring about. Only declared numbers
are stored; a singular field holds a value that fits it, a repeated one a list of at least one such
value; a default is not stored where it means unset; of a oneof group at most one member is stored;
and all this holds again in every message inside. Each write keeps a message canonical
(`Canonical.store`, `Canonical.insertItems` and the clearing ones).
-/

namespace Protowire

/-- The messages that stand in a value, without those inside them. -/
def Value.messages : Value → List Message
  | .message m => [m]
  | .list items => items.filterMap Value.message?
  | _ => []

/-- What a declared field may hold. -/
inductive Field.Holds (S : Schema) (f : Field) : Value → Prop
  | one {v : Value} (hsingular : f.repeated = false) (haccepts : f.kind.accepts S v)
    (hpresence : f.tracksPresence = false → v.isDefault = false) : Field.Holds S f v
  | many {items : List Value} (hrepeated : f.repeated) (hitems : items ≠ [])
    (haccepts : ∀ v ∈ items, f.kind.accepts S v) : Field.Holds S f (.list items)

/-- A message that is canonical as far as one sees without looking into the messages in it. -/
structure Message.Shaped (S : Schema) (m : Message) : Prop where
  type_lt : m.type < S.types.size
  ascending : FieldMap.Ascending m.fields
  stored : ∀ n v, m.get? n = some v → ∃ f, (S.type m.type).field? n = some f ∧ f.Holds S v
  exclusive : ∀ group ∈ (S.type m.type).oneofs, ∀ a ∈ group.members, ∀ b ∈ group.members,
    m.get? a ≠ none → m.get? b ≠ none → a = b

inductive Message.Canonical (S : Schema) : Message → Prop
  | intro {m : Message} (shaped : m.Shaped S)
    (nested : ∀ n v, m.get? n = some v → ∀ x ∈ v.messages, Canonical S x) : Canonical S m

/-- All messages in a value are canonical. -/
def Value.Canonical (S : Schema) (v : Value) : Prop := ∀ x ∈ v.messages, x.Canonical S

/-- No kind of field accepts a list as an element. -/
theorem Kind.accepts_list (S : Schema) (kind : Kind) (items : List Value) :
    kind.accepts S (.list items) = false := by
  cases kind with
  | scalar s => cases s <;> rfl
  | message t => rfl

/-- The messages in an element of a list are messages in the list. -/
theorem Value.mem_messages_list {S : Schema} {kind : Kind} {items : List Value} {v : Value}
    {x : Message} (haccepts : kind.accepts S v) (hv : v ∈ items) (hx : x ∈ v.messages) :
    x ∈ (Value.list items).messages := by
  cases v with
  | message m =>
    refine List.mem_filterMap.mpr ⟨_, hv, ?_⟩
    simpa [messages, message?, eq_comm] using hx
  | list inner =>
    rw [Kind.accepts_list] at haccepts
    cases haccepts
  | _ => simp [messages] at hx

namespace Value.Canonical

variable {S : Schema} {items : List Value} {v : Value}

theorem message {x : Message} (h : x.Canonical S) : (Value.message x).Canonical S := by
  intro y hy
  rw [messages, List.mem_singleton] at hy
  rwa [hy]

theorem list (h : ∀ v ∈ items, v.Canonical S) : (Value.list items).Canonical S := by
  intro x hx
  obtain ⟨v, hv, hx⟩ := List.mem_filterMap.mp hx
  cases v <;> cases hx
  exact h _ hv x (by simp [messages])

theorem of_mem_list {kind : Kind} (h : (Value.list items).Canonical S) (haccepts : kind.accepts S v)
    (hv : v ∈ items) : v.Canonical S :=
  fun _ hx => h _ (mem_messages_list haccepts hv hx)

theorem of_scalar {s : Scalar} (h : s.accepts v) : v.Canonical S := by
  intro x hx
  cases v <;> simp [messages] at hx <;> cases s <;> cases h

end Value.Canonical

/-- A field of messages accepts messages only. -/
theorem Field.exists_message_of_accepts {S : Schema} {f : Field} {t : TypeId} {v : Value}
    (hkind : f.kind = .message t) (h : f.kind.accepts S v) : ∃ x, v = .message x := by
  rw [hkind] at h
  cases v with
  | message x => exact ⟨x, rfl⟩
  | _ => cases h

theorem mem_insertAt {α : Type} {xs : List α} {a b : α} {index : Option Nat} :
    b ∈ insertAt xs a index ↔ b = a ∨ b ∈ xs := by
  cases index with
  | none => simp [insertAt, or_comm]
  | some i =>
    rw [insertAt, List.mem_append, List.mem_cons]
    conv_rhs => rw [← List.take_append_drop i xs, List.mem_append]
    tauto

theorem Message.message?_eq_some_iff {m x : Message} {n : Nat} :
    m.message? n = some x ↔ m.get? n = some (.message x) := by
  rw [message?, Option.bind_eq_some_iff]
  constructor
  · rintro ⟨v, hv, hx⟩
    cases v <;> cases hx
    exact hv
  · intro h
    exact ⟨_, h, rfl⟩

/-- A oneof group names the one member that is set. -/
theorem Message.whichOneof?_eq_some {S : Schema} {m : Message} {i n : Nat} {group : OneofGroup}
    (hgroup : (S.type m.type).oneof? i = some group) (hn : n ∈ group.members)
    (hset : m.get? n ≠ none) (honly : ∀ k ∈ group.members, m.get? k ≠ none → k = n) :
    m.whichOneof? S i = some n := by
  have hcontains (k : Nat) : FieldMap.contains m.fields k ↔ m.get? k ≠ none :=
    Option.isSome_iff_ne_none
  obtain ⟨k, hk⟩ : ∃ k, group.members.find? (FieldMap.contains m.fields ·) = some k :=
    Option.isSome_iff_exists.mp (List.find?_isSome.mpr ⟨n, hn, (hcontains n).mpr hset⟩)
  have hfound := (hcontains k).mp (List.find?_some hk)
  rw [whichOneof?, hgroup, Option.bind_some, hk, honly k (List.mem_of_find?_eq_some hk) hfound]

theorem Message.whichOneof?_eq_none {S : Schema} {m : Message} {i : Nat} {group : OneofGroup}
    (hgroup : (S.type m.type).oneof? i = some group)
    (hunset : ∀ k ∈ group.members, m.get? k = none) : m.whichOneof? S i = none := by
  rw [whichOneof?, hgroup, Option.bind_some, List.find?_eq_none]
  intro k hk
  have hk' : FieldMap.get? m.fields k = none := hunset k hk
  simp [FieldMap.contains, hk']

/-- A message is known by its type and by what it holds in each field. -/
theorem Message.ext_get? {m m' : Message} (htype : m.type = m'.type)
    (hm : FieldMap.Ascending m.fields) (hm' : FieldMap.Ascending m'.fields)
    (hget : ∀ k, m.get? k = m'.get? k) : m = m' := by
  have hfields : m.fields = m'.fields := hm.ext hm' hget
  rw [← eta m, htype, hfields, eta]

namespace Message.Canonical

variable {S : Schema} {m : Message} {f : Field} {n : Nat} {v : Value}

theorem shaped (hm : m.Canonical S) : m.Shaped S := by
  cases hm
  assumption

theorem value (hm : m.Canonical S) (hv : m.get? n = some v) : v.Canonical S := by
  cases hm with
  | intro _ nested => exact nested n v hv

theorem type_lt (hm : m.Canonical S) : m.type < S.types.size := hm.shaped.type_lt

theorem get?_of_excludes (hm : m.Canonical S) {k : Nat}
    (hexcludes : (S.type m.type).excludes n k) (hset : m.get? n ≠ none) : m.get? k = none := by
  obtain ⟨hne, group, hgroup, hn, hk⟩ := MessageType.excludes_iff.mp hexcludes
  by_contra h
  exact hne (hm.shaped.exclusive group hgroup n hn k hk hset h)

/-- Of two fields that are set neither excludes the other. -/
theorem excludes_eq_false (hm : m.Canonical S) {k : Nat} (hn : m.get? n ≠ none)
    (hk : m.get? k ≠ none) : (S.type m.type).excludes n k = false := by
  by_contra h
  exact hk (hm.get?_of_excludes (by simpa using h) hn)

theorem empty {t : TypeId} (ht : t < S.types.size) : (Message.empty t).Canonical S :=
  .intro ⟨ht, List.Pairwise.nil, by simp, by simp⟩ (by simp)

/-! ### Unsetting -/

theorem clearAll (hm : m.Canonical S) (ns : List Nat) : (m.clearAll ns).Canonical S := by
  have hget {k : Nat} {v : Value} (h : (m.clearAll ns).get? k = some v) : m.get? k = some v := by
    rw [get?_clearAll] at h
    split at h
    · cases h
    · exact h
  have hstored {k : Nat} (h : (m.clearAll ns).get? k ≠ none) : m.get? k ≠ none := by
    obtain ⟨v, hv⟩ := Option.ne_none_iff_exists'.mp h
    simp [hget hv]
  refine .intro ⟨hm.type_lt, hm.shaped.ascending.eraseAll ns, ?_, ?_⟩ ?_
  · exact fun n v h => hm.shaped.stored n v (hget h)
  · exact fun g hg a ha b hb h₁ h₂ => hm.shaped.exclusive g hg a ha b hb (hstored h₁) (hstored h₂)
  · exact fun n v h => hm.value (hget h)

theorem clear (hm : m.Canonical S) (n : Nat) : (m.clear n).Canonical S := by
  have h : m.clear n = m.clearAll [n] := by
    rw [Message.clear, Message.clearAll, FieldMap.erase_eq_eraseAll]
  rw [h]
  exact hm.clearAll [n]

/-! ### Setting -/

/-- A value may come into a field when no other member of the field's oneof group is set. -/
theorem insert (hm : m.Canonical S) (hf : (S.type m.type).field? n = some f) (hv : f.Holds S v)
    (hcanonical : v.Canonical S)
    (hrivals : ∀ group ∈ (S.type m.type).oneofs, n ∈ group.members → ∀ k ∈ group.members,
      k ≠ n → m.get? k = none) : (m.insert n v).Canonical S := by
  refine .intro ⟨hm.type_lt, hm.shaped.ascending.insert n v, ?_, ?_⟩ ?_
  · intro k w h
    rw [get?_insert] at h
    split at h
    · rename_i hk
      cases h
      exact ⟨f, hk ▸ hf, hv⟩
    · exact hm.shaped.stored k w h
  · intro g hg a ha b hb h₁ h₂
    rw [get?_insert] at h₁ h₂
    -- if just one of the two is the new member, the other is a rival and unset
    by_cases hna : a = n
    · by_cases hnb : b = n
      · rw [hna, hnb]
      · rw [if_neg hnb] at h₂
        exact absurd (hrivals g hg (hna ▸ ha) b hb hnb) h₂
    · rw [if_neg hna] at h₁
      by_cases hnb : b = n
      · exact absurd (hrivals g hg (hnb ▸ hb) a ha hna) h₁
      · rw [if_neg hnb] at h₂
        exact hm.shaped.exclusive g hg a ha b hb h₁ h₂
  · intro k w h
    rw [get?_insert] at h
    split at h
    · cases h
      exact hcanonical
    · exact hm.value h

/-- Setting a singular field clears the field's rivals first. -/
theorem store (hS : S.WellFormed) (hm : m.Canonical S) (hf : (S.type m.type).field? n = some f)
    (hsingular : f.repeated = false) (haccepts : f.kind.accepts S v) (hcanonical : v.Canonical S) :
    (m.store S f v).Canonical S := by
  have hnumber := MessageType.number_of_field? hf
  have hcleared := hm.clearAll ((S.type m.type).rivals f)
  simp only [Message.store, hnumber]
  split
  -- a default that means unset is not stored, but the rivals are gone all the same
  · exact hcleared.clear n
  · rename_i hdefault
    refine hcleared.insert hf ?_ hcanonical ?_
    · refine .one hsingular haccepts fun htracks => ?_
      simpa [htracks] using hdefault
    · intro g hg hn k hk hne
      rw [get?_clearAll, if_pos ((hS.type _).mem_rivals hf hg hn hk hne)]

theorem put (hS : S.WellFormed) (hm : m.Canonical S) (hf : (S.type m.type).field? n = some f)
    (hsingular : f.repeated = false) (haccepts : f.kind.accepts S v) (hcanonical : v.Canonical S) :
    (m.put S n v).Canonical S := by
  rw [Message.put, hf]
  exact hm.store hS hf hsingular haccepts hcanonical

/-- A repeated field is no member of a oneof group. -/
theorem insertItems {items : List Value} (hS : S.WellFormed) (hm : m.Canonical S)
    (hf : (S.type m.type).field? n = some f) (hrepeated : f.repeated) (hitems : items ≠ [])
    (haccepts : ∀ v ∈ items, f.kind.accepts S v) (hcanonical : (Value.list items).Canonical S) :
    (m.insert n (.list items)).Canonical S := by
  refine hm.insert hf (.many hrepeated hitems haccepts) hcanonical ?_
  intro g hg hn
  obtain ⟨i, hi⟩ := List.mem_iff_getElem?.mp hg
  have := ((hS.type _).mem_members_iff hf hi).mp hn
  simp [hrepeated] at this

/-- What stands in a field may be replaced there. -/
theorem replace (hm : m.Canonical S) (hf : (S.type m.type).field? n = some f)
    (hset : m.get? n ≠ none) (hv : f.Holds S v) (hcanonical : v.Canonical S) :
    (m.insert n v).Canonical S := by
  refine hm.insert hf hv hcanonical fun g hg hn k hk hne => ?_
  by_contra h
  exact hne (hm.shaped.exclusive g hg k hk n hn h hset)

/-! ### Repeated fields -/

theorem holds (hm : m.Canonical S) (hf : (S.type m.type).field? n = some f)
    (hv : m.get? n = some v) : f.Holds S v := by
  obtain ⟨g, hg, hholds⟩ := hm.shaped.stored n v hv
  rw [hf] at hg
  cases hg
  exact hholds

theorem items (hm : m.Canonical S) (hf : (S.type m.type).field? n = some f)
    (hrepeated : f.repeated) :
    ∀ v ∈ m.items n, f.kind.accepts S v ∧ v.Canonical S := by
  intro v hv
  cases hget : m.get? n with
  | none => simp [Message.items, hget] at hv
  | some w =>
    cases hm.holds hf hget with
    | one hsingular => simp [hrepeated] at hsingular
    | @many items _ _ haccepts =>
      simp only [Message.items, hget, Option.bind_some, Value.list?, Option.getD_some] at hv
      exact ⟨haccepts v hv, (hm.value hget).of_mem_list (haccepts v hv) hv⟩

/-- A repeated field without elements is unset. -/
theorem get?_of_repeated (hm : m.Canonical S) (hf : (S.type m.type).field? n = some f)
    (hrepeated : f.repeated) :
    m.get? n = if (m.items n).isEmpty then none else some (.list (m.items n)) := by
  cases hget : m.get? n with
  | none => simp [Message.items, hget]
  | some w =>
    cases hm.holds hf hget with
    | one hsingular => simp [hrepeated] at hsingular
    | many _ hitems => simp [Message.items, hget, Value.list?, hitems]

theorem putItems {vs : List Value} (hS : S.WellFormed) (hm : m.Canonical S)
    (hf : (S.type m.type).field? n = some f) (hrepeated : f.repeated)
    (hvs : ∀ v ∈ vs, f.kind.accepts S v ∧ v.Canonical S) : (m.putItems S n vs).Canonical S := by
  simp only [Message.putItems, hf, Option.isSome_some, ↓reduceIte]
  split
  · exact hm.clear n
  · rename_i hempty
    exact hm.insertItems hS hf hrepeated (by simpa using hempty) (fun v hv => (hvs v hv).1)
      (.list fun v hv => (hvs v hv).2)

theorem appendItems {vs : List Value} (hS : S.WellFormed) (hm : m.Canonical S)
    (hf : (S.type m.type).field? n = some f) (hrepeated : f.repeated)
    (hvs : ∀ v ∈ vs, f.kind.accepts S v ∧ v.Canonical S) : (m.appendItems n vs).Canonical S := by
  simp only [Message.appendItems]
  split
  · exact hm
  · rename_i hempty
    have hall : ∀ v ∈ m.items n ++ vs, f.kind.accepts S v ∧ v.Canonical S := by
      intro v hv
      rcases List.mem_append.mp hv with hv | hv
      · exact hm.items hf hrepeated v hv
      · exact hvs v hv
    refine hm.insertItems hS hf hrepeated ?_ (fun v hv => (hall v hv).1)
      (.list fun v hv => (hall v hv).2)
    intro h
    simp [(List.append_eq_nil_iff.mp h).2] at hempty

theorem addItem {index : Option Nat} (hS : S.WellFormed) (hm : m.Canonical S)
    (hf : (S.type m.type).field? n = some f) (hrepeated : f.repeated)
    (haccepts : f.kind.accepts S v) (hv : v.Canonical S) :
    (m.addItem S n v index).Canonical S := by
  simp only [Message.addItem, hf, Option.isSome_some, ↓reduceIte]
  have hall : ∀ w ∈ insertAt (m.items n) v index, f.kind.accepts S w ∧ w.Canonical S := by
    intro w hw
    rcases mem_insertAt.mp hw with rfl | hw
    · exact ⟨haccepts, hv⟩
    · exact hm.items hf hrepeated w hw
  refine hm.insertItems hS hf hrepeated ?_ (fun w hw => (hall w hw).1)
    (.list fun w hw => (hall w hw).2)
  intro h
  have hmem : v ∈ insertAt (m.items n) v index := mem_insertAt.mpr (.inl rfl)
  rw [h] at hmem
  cases hmem

/-! ### Messages inside -/

theorem message (hm : m.Canonical S) {x : Message} (hx : m.message? n = some x) :
    x.Canonical S := by
  exact hm.value (message?_eq_some_iff.mp hx) x (by simp [Value.messages])

/-- In a well-formed schema the full name tells the type. -/
theorem type_eq (hS : S.WellFormed) {T : MessageType} {t : TypeId} {x : Message}
    (hT : T.WellFormed S.types.size) (hf : f ∈ T.fields) (hkind : f.kind = .message t)
    (hx : x.Canonical S) (haccepts : f.kind.accepts S (.message x)) : x.type = t := by
  rw [hkind, Kind.accepts, decide_eq_true_eq] at haccepts
  exact hS.eq_of_fullName_eq hx.type_lt (hT.references f hf t hkind) haccepts

end Message.Canonical

end Protowire
