import Protowire.Proofs.Vision.Typed

/-!
The typed accessors are lenses. A getter gives what its setter was given; no other getter sees the
difference, except those of the rivals in a oneof, which read as unset while the oneof's case names
the field just set; unsetting touches one field only; and what one reads from a message is what one
reads from it after it has travelled as bytes.
-/

namespace Protowire.Vision

variable {t : TypeName} {p q : Property} {m m' : Message} {v : Value}

/-- What a getter gives where nothing is set. -/
def Shape.unset : Shape → Option Value
  | one s => some s.default
  | state => some (.enum BatchState.unspecified.number)
  | message _ => none
  | many _ | messages _ => some (.list [])

/-- What a getter makes of what is in the field. -/
def Shape.shown : Shape → Value → Value
  | state, .enum n => .enum ((BatchState.ofNumber? n).getD .unspecified).number
  | _, v => v

/-- Through the accessors of a field one sees no difference between two messages. -/
def Property.SameIn (p : Property) (m m' : Message) : Prop :=
  p.get m = p.get m' ∧ p.has m = p.has m'

/-- The laws for the accessors of one field of a message. -/
structure Property.Lens (t : TypeName) (p : Property) (m : Message) : Prop where
  /-- The getter gives what was set. -/
  get_set : ∀ v, p.shape.Takes v → p.get (p.set schema m v) = some v.unsigned
  /-- The other getters give what they gave before, as far as they are outside the oneof. -/
  frame : ∀ v, p.shape.Takes v → ∀ q ∈ t.properties, q ≠ p →
    t.definition.excludes p.number q.number = false → q.SameIn (p.set schema m v) m
  /-- The other members of the oneof are unset. -/
  rivals : ∀ v, p.shape.Takes v → ∀ q ∈ t.properties, t.definition.excludes p.number q.number →
    q.get (p.set schema m v) = q.shape.unset ∧ q.has (p.set schema m v) = false
  /-- The oneof's case names the field that was set. -/
  named : ∀ v, p.shape.Takes v → ∀ group ∈ t.definition.oneofs, p.number ∈ group.members →
    t.oneofCase schema (p.set schema m v) = p.number
  /-- Unsetting a field makes it absent and is not seen in the others. -/
  cleared : p.offers .clear → p.get (p.clear m) = none ∧ p.has (p.clear m) = false ∧
    ∀ q ∈ t.properties, q ≠ p → q.SameIn (p.clear m) m

/-! ### Reading -/

theorem Shape.shown_of_ne {shape : Shape} (h : shape ≠ .state) : shape.shown = id := by
  funext v
  cases shape <;> first | rfl | exact absurd rfl h

theorem Shape.shown_unsigned {shape : Shape} (hv : shape.Takes v) :
    shape.shown v.unsigned = v.unsigned := by
  by_cases hstate : shape = .state
  · subst hstate
    obtain ⟨s, rfl⟩ := hv
    simp [Value.unsigned, shown]
  · rw [shown_of_ne hstate, id]

namespace Property

theorem get_eq_read (p : Property) (m : Message) : p.get m = p.shape.shown <$> p.field.read m := by
  by_cases hstate : p.shape = .state
  · have hread : p.field.read m = some (.enum (m.int32 p.number)) := by
      simp only [Field.read, field, hstate, Shape.kind, Shape.repeated]
      exact congrArg some (m.getD_map p.number Value.int32? Value.enum 0)
    rw [hread]
    simp [get, hstate, Shape.shown]
  · rw [Shape.shown_of_ne hstate, id_map, get]
    split
    · exact absurd ‹_› hstate
    · rfl

/-- A field is read from what is stored under its number. -/
theorem sameIn_of_get? (h : m.get? p.number = m'.get? p.number) : p.SameIn m m' := by
  refine ⟨?_, Message.has_congr h⟩
  rw [get_eq_read, get_eq_read, Field.read_congr (f := p.field) h]

theorem get_of_get?_eq_none (h : m.get? p.number = none) : p.get m = p.shape.unset := by
  rw [get_eq_read, Field.read_of_get?_eq_none (f := p.field) h]
  obtain ⟨number, name, shape, asked⟩ := p
  cases shape <;> rfl

theorem has_of_get?_eq_none (h : m.get? p.number = none) : p.has m = false := by
  rw [has, Message.has, h]

/-! ### Writing -/

/-- What keeps the sign of a zero is in no oneof, and no message. -/
theorem unsigned_of_tracksPresence {f : Field} (hf : f ∈ t.definition.fields)
    (htracks : f.tracksPresence) (hv : f.Takes schema v) : v.unsigned = v := by
  obtain ⟨hfloat, hdouble⟩ := TypeName.kind_of_tracksPresence hf htracks
  cases hrepeated : f.repeated with
  | true =>
    obtain ⟨items, rfl, _⟩ := (Field.takes_of_repeated hrepeated).mp hv
    rfl
  | false =>
    have haccepts := (Field.takes_of_singular hrepeated).mp hv
    cases hkind : f.kind with
    | scalar s =>
      rw [hkind] at haccepts hfloat hdouble
      cases s <;> cases v <;>
        first | rfl | exact absurd rfl hfloat | exact absurd rfl hdouble | cases haccepts
    | message u =>
      obtain ⟨x, rfl⟩ := Field.exists_message_of_accepts hkind haccepts
      rfl

theorem get?_set (htype : m.type = t.id) (hp : p ∈ t.properties) (hv : p.shape.Takes v) {k : Nat}
    (hne : k ≠ p.number) :
    (p.set schema m v).get? k =
      if t.definition.excludes p.number k then none else m.get? k := by
  obtain ⟨f, hf, hfield⟩ := p.declared hp htype
  rw [set_eq_write hfield, Message.get?_write schema_wellFormed hf (takes_declared hfield hv),
    if_neg hne, htype, schema_type_id]

theorem get_set (htype : m.type = t.id) (hp : p ∈ t.properties) (hv : p.shape.Takes v) :
    p.get (p.set schema m v) = some v.unsigned := by
  obtain ⟨f, hf, hfield⟩ := p.declared hp htype
  have htakes := takes_declared hfield hv
  have hread : f.read (f.write schema m v) = some v.unsigned := by
    rw [Message.read_write schema_wellFormed hf htakes]
    split
    · rename_i htracks
      have hmem : f ∈ t.definition.fields := by
        rw [← schema_type_id, ← htype]
        exact MessageType.mem_of_field? hf
      rw [unsigned_of_tracksPresence hmem htracks htakes]
    · rfl
  have hget : p.get (p.set schema m v) = p.shape.shown <$> f.read (f.write schema m v) := by
    rw [get_eq_read, set_eq_write hfield, hfield]
    rfl
  rw [hget, hread]
  exact congrArg some (Shape.shown_unsigned hv)

theorem get?_clear_of_ne {k : Nat} (hne : k ≠ p.number) : (p.clear m).get? k = m.get? k := by
  rw [clear, Message.get?_clear, if_neg hne]

theorem get?_clear_self : (p.clear m).get? p.number = none := by
  rw [clear, Message.get?_clear, if_pos rfl]

/-- Only what may be absent can be unset. -/
theorem unset_of_offers_clear (h : p.offers .clear) : p.shape.unset = none := by
  obtain ⟨number, name, shape, asked⟩ := p
  cases shape with
  | message t => rfl
  | one s | state | many s | messages t => cases h

end Property

/-! ### The oneof's case -/

/-- No type has a second oneof. -/
theorem TypeName.oneof?_of_mem {group : OneofGroup} (h : group ∈ t.definition.oneofs) :
    t.definition.oneof? 0 = some group := by
  revert group
  cases t <;> decide

theorem oneof?_of_mem {group : OneofGroup} (htype : m.type = t.id)
    (hgroup : group ∈ t.definition.oneofs) : (schema.type m.type).oneof? 0 = some group := by
  rw [htype, schema_type_id]
  exact TypeName.oneof?_of_mem hgroup

/-- The case functions know every member of their oneof. -/
theorem TypeName.oneofCase_eq {group : OneofGroup} {n : Nat} (hgroup : group ∈ t.definition.oneofs)
    (hn : n ∈ group.members) (h : m.whichOneof? schema 0 = some n) :
    t.oneofCase schema m = n := by
  cases t with
  | operation =>
    obtain rfl := List.mem_singleton.mp hgroup
    rcases List.mem_pair.mp hn with rfl | rfl <;> rw [oneofCase, Operation.resultCase, h] <;> rfl
  | importProductSetsInputConfig =>
    obtain rfl := List.mem_singleton.mp hgroup
    obtain rfl := List.mem_singleton.mp hn
    rw [oneofCase, sourceCase, h]
    rfl
  | purgeProductsRequest =>
    obtain rfl := List.mem_singleton.mp hgroup
    rcases List.mem_pair.mp hn with rfl | rfl <;> rw [oneofCase, targetCase, h] <;> rfl
  | _ => cases hgroup

theorem Property.oneofCase_set {group : OneofGroup} (htype : m.type = t.id)
    (hp : p ∈ t.properties) (hv : p.shape.Takes v) (hgroup : group ∈ t.definition.oneofs)
    (hn : p.number ∈ group.members) : t.oneofCase schema (p.set schema m v) = p.number := by
  obtain ⟨f, hf, hfield⟩ := p.declared hp htype
  apply TypeName.oneofCase_eq hgroup hn
  rw [set_eq_write hfield]
  exact Message.whichOneof?_write schema_wellFormed hf (takes_declared hfield hv)
    (oneof?_of_mem htype hgroup) hn

theorem TypeName.oneofCase_of_none (h : m.whichOneof? schema 0 = none) :
    t.oneofCase schema m = 0 := by
  cases t with
  | operation => rw [oneofCase, Operation.resultCase, h]; rfl
  | importProductSetsInputConfig => rw [oneofCase, sourceCase, h]; rfl
  | purgeProductsRequest => rw [oneofCase, targetCase, h]; rfl
  | _ => rfl

/-! ### Unsetting a oneof -/

theorem get?_clearOneof {group : OneofGroup} (htype : m.type = t.id)
    (hgroup : group ∈ t.definition.oneofs) (k : Nat) :
    (m.clearOneof schema 0).get? k = if k ∈ group.members then none else m.get? k := by
  rw [Message.clearOneof, oneof?_of_mem htype hgroup]
  exact Message.get?_clearAll ..

theorem oneofCase_clearOneof {group : OneofGroup} (htype : m.type = t.id)
    (hgroup : group ∈ t.definition.oneofs) : t.oneofCase schema (m.clearOneof schema 0) = 0 := by
  apply TypeName.oneofCase_of_none
  have hgroup' := oneof?_of_mem htype hgroup
  rw [← Message.type_clearOneof schema m 0] at hgroup'
  refine Message.whichOneof?_eq_none hgroup' fun k hk => ?_
  rw [get?_clearOneof htype hgroup, if_pos hk]

/-! ### The laws together -/

theorem Property.lens (htype : m.type = t.id) (hp : p ∈ t.properties) : p.Lens t m where
  get_set v hv := get_set htype hp hv
  frame v hv q hq hne hexcludes := by
    apply sameIn_of_get?
    rw [get?_set htype hp hv (number_ne hp hq hne), hexcludes, if_neg Bool.false_ne_true]
  rivals v hv q hq hexcludes := by
    have hne : q.number ≠ p.number := (MessageType.excludes_iff.mp hexcludes).1.symm
    have hnone : (p.set schema m v).get? q.number = none := by
      rw [get?_set htype hp hv hne, if_pos hexcludes]
    exact ⟨get_of_get?_eq_none hnone, has_of_get?_eq_none hnone⟩
  named v hv group hgroup hn := oneofCase_set htype hp hv hgroup hn
  cleared hoffers := by
    refine ⟨?_, has_of_get?_eq_none get?_clear_self, fun q hq hne => ?_⟩
    · rw [get_of_get?_eq_none get?_clear_self, unset_of_offers_clear hoffers]
    · exact sameIn_of_get? (get?_clear_of_ne (number_ne hp hq hne))

/-- The accessors of two fields that a message is made from give them back. -/
theorem Property.get_pair {a b : String} {s r : Scalar} {w : Value}
    (hfirst : .one 1 a s ∈ t.properties) (hsecond : .one 2 b r ∈ t.properties)
    (hexcludes : t.definition.excludes 2 1 = false) (hv : s.accepts v) (hw : r.accepts w) :
    (one 1 a s).get (pair schema t v w) = some v.unsigned ∧
      (one 2 b r).get (pair schema t v w) = some w.unsigned := by
  have htype : ((one 1 a s).set schema (Message.empty t.id) v).type = t.id :=
    Message.type_write ..
  have hlens := lens htype hsecond
  refine ⟨?_, hlens.get_set w hw⟩
  have hframe := hlens.frame w hw (one 1 a s) hfirst (by simp [one]) hexcludes
  exact hframe.1.trans (get_set rfl hfirst hv)

/-- On every message that the typed interface leads to, the accessors of every field obey the laws;
unsetting a oneof unsets its members and is not seen in other fields; and all accessors read the same
from the message that its bytes decode to. -/
theorem accessors_are_lenses (hm : Typed m) (htype : m.type = t.id) :
    (∀ p ∈ t.properties, p.Lens t m) ∧
      (∀ group ∈ t.definition.oneofs, t.oneofCase schema (m.clearOneof schema 0) = 0 ∧
        ∀ p ∈ t.properties, if p.number ∈ group.members
          then p.get (m.clearOneof schema 0) = p.shape.unset ∧ p.has (m.clearOneof schema 0) = false
          else p.SameIn (m.clearOneof schema 0) m) ∧
      ((m.encode schema).length ≤ Limits.default.size →
        ∃ m', Message.decode schema t.id .default (m.encode schema) = .ok m' ∧
          (∀ p ∈ t.properties, p.SameIn m' m) ∧ t.oneofCase schema m' = t.oneofCase schema m) := by
  refine ⟨fun p hp => Property.lens htype hp, fun group hgroup => ?_, fun hsize => ?_⟩
  · refine ⟨oneofCase_clearOneof htype hgroup, fun p _ => ?_⟩
    have hget := get?_clearOneof htype hgroup p.number
    split
    · rename_i hmember
      rw [if_pos hmember] at hget
      exact ⟨Property.get_of_get?_eq_none hget, Property.has_of_get?_eq_none hget⟩
    · rename_i hother
      rw [if_neg hother] at hget
      exact Property.sameIn_of_get? hget
  · have hdecode := hm.decode_of_encode htype hsize
    exact ⟨m, hdecode, fun p _ => ⟨rfl, rfl⟩, rfl⟩

/-- An operation that was refused. -/
def deniedOperation : Message :=
  (Property.message 4 "error" .status).set schema (Message.empty TypeName.operation.id)
    (.message (Status.withCode schema .permissionDenied "no"))

theorem typed_deniedOperation : Typed deniedOperation := by
  have hp : .message 4 "error" .status ∈ TypeName.operation.properties := by decide
  refine (Typed.new .operation).set rfl hp ⟨_, rfl, rfl⟩ fun x hx => ?_
  rw [List.mem_singleton.mp hx]
  exact typed_withCode ..

/-- A response, even an empty one, takes the place of the error. -/
theorem response_replaces_error :
    let answered := (Property.message 5 "response" .any).set schema deniedOperation
      (.message (Message.empty TypeName.any.id))
    (Property.message 5 "response" .any).get answered =
        some (.message (Message.empty TypeName.any.id)) ∧
      (Property.message 4 "error" .status).get answered = none ∧
      TypeName.operation.oneofCase schema answered = 5 ∧
      ∃ m', Message.decode schema TypeName.operation.id .default (deniedOperation.encode schema) =
        .ok m' ∧ TypeName.operation.oneofCase schema m' = 4 := by
  obtain ⟨hlens, _, hdecode⟩ := accessors_are_lenses (t := .operation) typed_deniedOperation rfl
  have hresponse := hlens (.message 5 "response" .any) (by decide)
  have htakes : (Property.message 5 "response" .any).shape.Takes
      (.message (Message.empty TypeName.any.id)) := ⟨_, rfl, rfl⟩
  have hrival := hresponse.rivals _ htakes (.message 4 "error" .status) (by decide) (by decide)
  have hcase := hresponse.named _ htakes _ (.head _) (by decide)
  obtain ⟨m', hm', _, hsame⟩ := hdecode (by cbv)
  exact ⟨hresponse.get_set _ htakes, hrival.1, hcase, m', hm', hsame.trans (by cbv)⟩

end Protowire.Vision
