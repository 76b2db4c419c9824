import Protowire.Message.Access
import Protowire.Proofs.Message.Canonical

/-!
Typed access to a declared field as a lens: what is written is what is read, and other fields read as
before, except that the rivals in a oneof group are unset. All of it follows from what a write leaves
stored under each number (`Message.get?_write`), since a field is read from what is stored under its
own number. Messages need not be canonical for it.
-/

namespace Protowire

/-- What a field may be set to: a value that fits, or for a repeated field a list of such values. -/
def Field.Takes (S : Schema) (f : Field) (v : Value) : Prop :=
  if f.repeated then ∃ items, v = .list items ∧ ∀ w ∈ items, f.kind.accepts S w
  else f.kind.accepts S v

/-- What a field keeps of a value that it is set to. -/
def Field.stored (f : Field) (v : Value) : Option Value :=
  if (f.repeated || !f.tracksPresence) && v.isDefault then none else some v

/-- The value with a positive zero for each zero. -/
def Value.unsigned : Value → Value
  | .float bits => if Binary.single.isZero bits.toNat then .float 0 else .float bits
  | .double bits => if Binary.double.isZero bits.toNat then .double 0 else .double bits
  | v => v

variable {S : Schema} {m m' : Message} {f : Field} {n : Nat} {v : Value}

theorem Field.takes_of_repeated (hrepeated : f.repeated) :
    f.Takes S v ↔ ∃ items, v = .list items ∧ ∀ w ∈ items, f.kind.accepts S w := by
  simp [Takes, hrepeated]

theorem Field.takes_of_singular (hsingular : f.repeated = false) :
    f.Takes S v ↔ f.kind.accepts S v := by
  simp [Takes, hsingular]

/-! ### What is read -/

theorem Field.read_congr (h : m.get? f.number = m'.get? f.number) : f.read m = f.read m' := by
  simp only [read, Message.elements, Message.items, Message.scalar, Message.getD, Message.message?, h]

/-- An unset field reads as the default of its kind, a repeated one as no elements. -/
theorem Field.read_of_get?_eq_none (h : m.get? f.number = none) :
    f.read m = if f.repeated then some (.list []) else f.kind.default? := by
  simp only [read, Message.elements, Message.items, Message.scalar, Message.getD, Message.message?, h]
  cases f.repeated <;> cases f.kind <;> rfl

theorem Message.has_congr (h : m.get? n = m'.get? n) : m.has n = m'.has n := by
  rw [has, has, h]

/-- A field read through a view of it is the view of what is read. -/
theorem Message.getD_map {α β : Type} (m : Message) (n : Nat) (view : Value → Option α) (g : α → β)
    (default : α) : m.getD n (fun v => g <$> view v) (g default) = g (m.getD n view default) := by
  simp only [getD]
  cases m.get? n with
  | none => rfl
  | some v => cases hv : view v <;> simp [hv]

theorem Scalar.view_of_accepts {s : Scalar} (h : s.accepts v) : s.view v = some v := by
  cases s <;> cases v <;> first | rfl | cases h

theorem Kind.view_of_accepts {kind : Kind} (h : kind.accepts S v) : kind.view v = some v := by
  cases kind with
  | scalar s => exact Scalar.view_of_accepts h
  | message t => cases v <;> first | rfl | cases h

/-- A default that is not stored reads as one, but the sign of a zero is lost. -/
theorem Scalar.default_eq_unsigned {s : Scalar} (h : s.accepts v) (hdefault : v.isDefault) :
    s.default = v.unsigned := by
  cases s <;> cases v <;> cases h <;>
    simp_all [Value.isDefault, Value.unsigned, Scalar.default]

theorem Value.unsigned_of_not_isDefault (h : v.isDefault = false) : v.unsigned = v := by
  cases v <;> simp_all [Value.isDefault, Value.unsigned]

/-! ### What is written -/

namespace Message

@[simp] theorem type_write (S : Schema) (f : Field) (m : Message) (v : Value) :
    (f.write S m v).type = m.type := by
  rw [Field.write]
  split <;> simp

/-- A write sets its field, unsets the rivals, and does nothing else. -/
theorem get?_write (hS : S.WellFormed) (hf : (S.type m.type).field? n = some f)
    (hv : f.Takes S v) (k : Nat) :
    (f.write S m v).get? k =
      if k = n then f.stored v
      else if (S.type m.type).excludes n k then none else m.get? k := by
  have hnumber := MessageType.number_of_field? hf
  cases hrepeated : f.repeated with
  | true =>
    obtain ⟨items, rfl, _⟩ := (Field.takes_of_repeated hrepeated).mp hv
    have hexcludes := (hS.type m.type).excludes_of_repeated hf hrepeated k
    rw [Field.write, if_pos hrepeated, hnumber, putItems, hf, hexcludes]
    by_cases hempty : items.isEmpty
    · simp [Field.stored, hrepeated, Value.isDefault, hempty, Value.list?, get?_clear]
    · simp [Field.stored, hrepeated, Value.isDefault, hempty, Value.list?, get?_insert]
  | false =>
    have hrivals : k ∈ (S.type m.type).rivals f ↔ (S.type m.type).excludes n k :=
      (hS.type m.type).mem_rivals_iff hf hrepeated
    rw [Field.write, hrepeated, if_neg Bool.false_ne_true, hnumber, put, hf]
    simp only [store, hnumber, Field.stored, hrepeated, Bool.false_or]
    split
    · simp only [get?_clear, get?_clearAll, hrivals]
    · simp only [get?_insert, get?_clearAll, hrivals]

/-- A field reads as what it was set to. -/
theorem read_of_stored (hv : f.Takes S v) (h : m.get? f.number = f.stored v) :
    f.read m = some (if f.tracksPresence then v else v.unsigned) := by
  cases hrepeated : f.repeated with
  | true =>
    obtain ⟨items, rfl, haccepts⟩ := (Field.takes_of_repeated hrepeated).mp hv
    have hitems : m.items f.number = items := by
      rw [Message.items, h, Field.stored]
      cases items <;> simp [hrepeated, Value.isDefault, Value.list?]
    have hview : items.filterMap f.kind.view = items := by
      rw [List.filterMap_congr fun w hw => Kind.view_of_accepts (haccepts w hw),
        List.filterMap_some]
    rw [Field.read, if_pos hrepeated, elements, hitems, hview]
    simp [Value.unsigned]
  | false =>
    have haccepts := (Field.takes_of_singular hrepeated).mp hv
    rw [Field.read, hrepeated, if_neg Bool.false_ne_true]
    cases hkind : f.kind with
    | scalar s =>
      rw [hkind] at haccepts
      have hview := Scalar.view_of_accepts haccepts
      simp only [scalar, getD, h, Field.stored, hrepeated, Bool.false_or]
      cases htracks : f.tracksPresence with
      | true => simp [hview]
      | false =>
        cases hdefault : v.isDefault with
        | true => simp [Scalar.default_eq_unsigned haccepts hdefault]
        | false => simp [hview, Value.unsigned_of_not_isDefault hdefault]
    | message t =>
      obtain ⟨x, rfl⟩ := Field.exists_message_of_accepts hkind haccepts
      have htracks : f.tracksPresence := by simp [Field.tracksPresence, hkind, Kind.isMessage]
      simp [message?, h, Field.stored, hrepeated, htracks, Value.message?]

theorem read_write (hS : S.WellFormed) (hf : (S.type m.type).field? n = some f)
    (hv : f.Takes S v) :
    f.read (f.write S m v) = some (if f.tracksPresence then v else v.unsigned) := by
  refine read_of_stored hv ?_
  rw [get?_write hS hf hv, if_pos (MessageType.number_of_field? hf)]

/-- After a write to a member of a oneof group, the group names this member. -/
theorem whichOneof?_write {i : Nat} {group : OneofGroup} (hS : S.WellFormed)
    (hf : (S.type m.type).field? n = some f) (hv : f.Takes S v)
    (hgroup : (S.type m.type).oneof? i = some group) (hn : n ∈ group.members) :
    (f.write S m v).whichOneof? S i = some n := by
  obtain ⟨hsingular, honeof⟩ := ((hS.type m.type).mem_members_iff hf hgroup).mp hn
  have htracks : f.tracksPresence := by simp [Field.tracksPresence, honeof]
  have hget := get?_write (v := v) hS hf hv
  refine whichOneof?_eq_some (by rwa [type_write]) hn ?_ fun k hk hset => ?_
  · simp [hget, Field.stored, hsingular, htracks]
  · by_contra hne
    have hexcludes : (S.type m.type).excludes n k :=
      MessageType.excludes_iff.mpr ⟨Ne.symm hne, group, List.mem_of_getElem? hgroup, hn, hk⟩
    rw [hget, if_neg hne, if_pos hexcludes] at hset
    exact hset rfl

theorem Canonical.write (hS : S.WellFormed) (hm : m.Canonical S)
    (hf : (S.type m.type).field? n = some f) (hv : f.Takes S v) (hcanonical : v.Canonical S) :
    (f.write S m v).Canonical S := by
  rw [Field.write, MessageType.number_of_field? hf]
  cases hrepeated : f.repeated with
  | true =>
    obtain ⟨items, rfl, haccepts⟩ := (Field.takes_of_repeated hrepeated).mp hv
    refine hm.putItems hS hf hrepeated fun w hw => ⟨haccepts w hw, ?_⟩
    exact hcanonical.of_mem_list (haccepts w hw) hw
  | false => exact hm.put hS hf hrepeated ((Field.takes_of_singular hrepeated).mp hv) hcanonical

end Message

end Protowire
