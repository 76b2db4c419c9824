import Protowire.Proofs.Message.Access
import Protowire.Proofs.Message.Height
import Protowire.Proofs.Message.Normal
import Protowire.Proofs.Message.Reachable
import Protowire.Proofs.Vision.Schema
import Protowire.Vision.Property

/-!
The messages that the typed interface leads to: new ones, decoded ones and those from plain form, and
what setting, adding, unsetting and merging make of them. The accessors do not check what they are
given, but their shapes let only such values through as the declared fields accept
(`Property.declared`), so all these messages are canonical. The types of the service nest at most
four levels deep, which is far below the default limit: whatever its fields hold, a typed message that
is not too large comes back from its bytes.
-/

namespace Protowire.Vision

variable {t : TypeName} {p : Property} {m : Message} {v : Value}

/-- What the setter of this shape takes. -/
def Shape.Takes : Shape → Value → Prop
  | one s, v => s.accepts v
  | state, v => ∃ s : BatchState, v = .enum s.number
  | message t, v => ∃ x : Message, x.type = t.id ∧ v = .message x
  | many s, v => ∃ items : List Value, (∀ w ∈ items, s.accepts w) ∧ v = .list items
  | messages t, v => ∃ xs : List Message, (∀ x ∈ xs, x.type = t.id) ∧ v = .list (xs.map .message)

/-- What the adder of this shape takes. -/
def Shape.TakesElement : Shape → Value → Prop
  | many s, v => s.accepts v
  | messages t, v => ∃ x : Message, x.type = t.id ∧ v = .message x
  | _, _ => False

/-- The messages that a program comes to hold if it goes through the typed interface. -/
inductive Typed : Message → Prop
  | new (t : TypeName) : Typed (Message.empty t.id)
  | decoded {t : TypeName} {limits : Limits} {bs : List UInt8} {m : Message}
    (h : Message.decode schema t.id limits bs = .ok m) : Typed m
  | fromPlain {t : TypeName} {v : Plain} {m : Message} (h : Message.ofPlain schema t.id v = .ok m) :
    Typed m
  /-- The message that merging leaves, whether or not it fails. -/
  | merged {m : Message} (hm : Typed m) (nesting : Nesting) (bs : List UInt8) :
    Typed (merge schema nesting m bs).message
  | set {t : TypeName} {m : Message} {p : Property} {v : Value} (hm : Typed m)
    (htype : m.type = t.id) (hp : p ∈ t.properties) (hv : p.shape.Takes v)
    (hinside : ∀ x ∈ v.messages, Typed x) : Typed (p.set schema m v)
  | add {t : TypeName} {m : Message} {p : Property} {v : Value} (hm : Typed m)
    (htype : m.type = t.id) (hp : p ∈ t.properties) (hv : p.shape.TakesElement v)
    (hinside : ∀ x ∈ v.messages, Typed x) (index : Option Nat) : Typed (p.add schema m v index)
  | clear {m : Message} (hm : Typed m) (p : Property) : Typed (p.clear m)
  | clearOneof {m : Message} (hm : Typed m) (group : Nat) : Typed (m.clearOneof schema group)
  /-- A message that a getter hands out. -/
  | inside {m x : Message} {n : Nat} {v : Value} (hm : Typed m) (hv : m.get? n = some v)
    (hx : x ∈ v.messages) : Typed x

/-! ### The accessors and the declarations -/

/-- Every accessor goes by the number, the name, the kind and the multiplicity of a declared field. -/
theorem TypeName.field?_of_mem_properties (hp : p ∈ t.properties) :
    (t.definition.field? p.number).map (fun f => { f with oneof := none }) = some p.field := by
  revert p
  cases t <;> decide +kernel

theorem Property.declared (hp : p ∈ t.properties) (htype : m.type = t.id) :
    ∃ f, (schema.type m.type).field? p.number = some f ∧ p.field = { f with oneof := none } := by
  obtain ⟨f, hf, hfield⟩ := Option.map_eq_some_iff.mp (TypeName.field?_of_mem_properties hp)
  exact ⟨f, by rwa [htype, schema_type_id], hfield.symm⟩

/-- No declared field goes without accessors. -/
theorem TypeName.exists_property {f : Field} (hf : f ∈ t.definition.fields) :
    ∃ p ∈ t.properties, p.field = { f with oneof := none } := by
  revert f
  cases t <;> decide +kernel

/-- The name of an accessor leads to it, and by the declarations it leads to the declared field. -/
theorem TypeName.accessor?_name {a : Accessor} (hp : p ∈ t.properties) (ha : p.offers a) :
    t.accessor? (a.verb ++ p.name) = some (a, p) ∧
      (t.definition.accessor? (a.verb ++ p.name)).map (fun x => (x.1, { x.2 with oneof := none })) =
        some (a, p.field) := by
  have hall : ∀ p ∈ t.properties, ∀ a ∈ Accessor.all, p.offers a →
      t.accessor? (a.verb ++ p.name) = some (a, p) ∧
        (t.definition.accessor? (a.verb ++ p.name)).map
          (fun x => (x.1, { x.2 with oneof := none })) = some (a, p.field) := by
    cases t <;> decide +kernel
  exact hall p hp a (by cases a <;> decide) ha

/-- The members of oneof groups hold no floating-point numbers. -/
theorem TypeName.kind_of_tracksPresence {f : Field} (hf : f ∈ t.definition.fields)
    (htracks : f.tracksPresence) : f.kind ≠ .float ∧ f.kind ≠ .scalar .double := by
  revert f
  cases t <;> decide +kernel

/-- No two accessors share a number. -/
theorem TypeName.nodup_properties (t : TypeName) : (t.properties.map (·.number)).Nodup := by
  cases t <;> decide

theorem Property.number_ne {q : Property} (hp : p ∈ t.properties) (hq : q ∈ t.properties)
    (hne : q ≠ p) : q.number ≠ p.number :=
  fun h => hne (List.inj_on_of_nodup_map t.nodup_properties hq hp h)

/-- What a setter takes fits the field that it is written for. -/
theorem Property.takes_field (hv : p.shape.Takes v) : p.field.Takes schema v := by
  obtain ⟨number, name, shape, asked⟩ := p
  cases shape with
  | one s => exact (Field.takes_of_singular rfl).mpr hv
  | state =>
    obtain ⟨s, rfl⟩ := hv
    exact (Field.takes_of_singular rfl).mpr rfl
  | message t =>
    obtain ⟨x, hx, rfl⟩ := hv
    refine (Field.takes_of_singular rfl).mpr ?_
    simp [field, Shape.kind, ref, Kind.accepts, hx]
  | many s =>
    obtain ⟨items, haccepts, rfl⟩ := hv
    exact (Field.takes_of_repeated rfl).mpr ⟨items, rfl, haccepts⟩
  | messages t =>
    obtain ⟨xs, hxs, rfl⟩ := hv
    refine (Field.takes_of_repeated rfl).mpr ⟨_, rfl, List.forall_mem_map.mpr fun x hx => ?_⟩
    simp [field, Shape.kind, ref, Kind.accepts, hxs x hx]

theorem Property.accepts_of_takesElement (hv : p.shape.TakesElement v) :
    p.field.repeated ∧ p.field.kind.accepts schema v := by
  obtain ⟨number, name, shape, asked⟩ := p
  cases shape with
  | many s => exact ⟨rfl, hv⟩
  | messages t =>
    obtain ⟨x, hx, rfl⟩ := hv
    exact ⟨rfl, by simp [field, Shape.kind, ref, Kind.accepts, hx]⟩
  | one s | state | message t => cases hv

theorem Property.takes_declared {f : Field} (hfield : p.field = { f with oneof := none })
    (hv : p.shape.Takes v) : f.Takes schema v := by
  have htakes := takes_field hv
  rw [hfield] at htakes
  exact htakes

/-- Writing asks for the group of the declared field, not of the one that is written for. -/
theorem Property.set_eq_write {f : Field} (hfield : p.field = { f with oneof := none }) :
    p.set schema m v = f.write schema m v := by
  rw [set, hfield]
  rfl

/-! ### Typed messages are canonical -/

namespace Property

theorem set_canonical (hm : m.Canonical schema) (htype : m.type = t.id) (hp : p ∈ t.properties)
    (hv : p.shape.Takes v) (hinside : v.Canonical schema) :
    (p.set schema m v).Canonical schema := by
  obtain ⟨f, hf, hfield⟩ := p.declared hp htype
  rw [set_eq_write hfield]
  exact hm.write schema_wellFormed hf (takes_declared hfield hv) hinside

theorem add_canonical (hm : m.Canonical schema) (htype : m.type = t.id) (hp : p ∈ t.properties)
    (hv : p.shape.TakesElement v) (hinside : v.Canonical schema) (index : Option Nat) :
    (p.add schema m v index).Canonical schema := by
  obtain ⟨f, hf, hfield⟩ := p.declared hp htype
  obtain ⟨hrepeated, haccepts⟩ := accepts_of_takesElement hv
  rw [hfield] at hrepeated haccepts
  exact hm.addItem schema_wellFormed hf hrepeated haccepts hinside

end Property

/-- The induction is on how the message came about; each step keeps the invariant, and the messages
handed over in arguments came about in the same way. -/
theorem Typed.canonical (hm : Typed m) : m.Canonical schema := by
  induction hm with
  | new t => exact .empty (id_lt_size t)
  | decoded h => exact .decode schema_wellFormed (id_lt_size _) h
  | fromPlain h => exact (Message.ofPlain_canonical schema_wellFormed (id_lt_size _) h).1
  | merged _ nesting bs ih => exact ih.merge schema_wellFormed
  | set _ htype hp hv _ ih ihinside => exact Property.set_canonical ih htype hp hv ihinside
  | add _ htype hp hv _ index ih ihinside =>
    exact Property.add_canonical ih htype hp hv ihinside index
  | clear _ p ih => exact ih.clear p.number
  | clearOneof _ group ih => exact ih.clearOneof group
  | inside _ hv hx ih => exact ih.value hv _ hx

/-! ### Messages from parts -/

theorem Scalar.messages_of_accepts {s : Scalar} (h : s.accepts v) : v.messages = [] := by
  cases s <;> cases v <;> cases h <;> rfl

theorem typed_pair {a b : String} {s r : Scalar} {w : Value}
    (hfirst : .one 1 a s ∈ t.properties) (hsecond : .one 2 b r ∈ t.properties)
    (hv : s.accepts v) (hw : r.accepts w) : Typed (pair schema t v w) := by
  have hnew := (Typed.new t).set rfl hfirst hv (by simp [Scalar.messages_of_accepts hv])
  exact hnew.set (Message.type_write ..) hsecond hw (by simp [Scalar.messages_of_accepts hw])

theorem typed_timestamp (seconds : Int64) (nanos : Int32) :
    Typed (Timestamp.at schema seconds nanos) :=
  typed_pair (.head _) (.tail _ (.head _)) rfl rfl

theorem typed_withCode (c : Code) (text : String) : Typed (Status.withCode schema c text) :=
  typed_pair (t := .status) (.head _) (.tail _ (.head _)) rfl rfl

theorem typed_pack (x : Message) : Typed (Any.pack schema x) :=
  typed_pair (t := .any) (.head _) (.tail _ (.head _)) rfl rfl

/-! ### They come back from their bytes -/

/-- Results hold groups of results, these results, these products and these labels; no type leads
further. -/
theorem schema_shallow (t : TypeName) : schema.shallow 4 t.id := by
  cases t <;> decide +kernel

theorem Typed.decode_of_encode (hm : Typed m) (htype : m.type = t.id)
    (hsize : (m.encode schema).length ≤ Limits.default.size) :
    Message.decode schema t.id .default (m.encode schema) = .ok m := by
  have hcanonical := hm.canonical
  have hheight : m.height ≤ 4 :=
    hcanonical.height_le schema_wellFormed (htype ▸ schema_shallow t)
  have hlength : (m.encode schema).length < 2 ^ 64 := Nat.lt_of_le_of_lt hsize (by decide)
  rw [← htype]
  exact hcanonical.decode_encode_of_le schema_wellFormed hlength hsize
    (Nat.le_trans hheight (by decide))

end Protowire.Vision
