import Protowire.Proofs.Registry
import Protowire.Proofs.Vision.Lens

/-!
Packed messages come out as they went in. The name in the URL, the name that a reader asks for and the
name in the registry are the same part of the same text, so the reader of a type and the reader by
registry agree on every packed message, well formed or not; and a typed message that is packed comes
back from its bytes, also after the packed one has travelled inside an operation.
-/

namespace Protowire.Vision

variable {t : TypeName} {x any op : Message}

/-! ### The registry of the service -/

theorem registered_lt : ∀ u ∈ (TypeName.all.filter (· ∉ TypeName.nested)).map TypeName.id,
    u < schema.types.size := by
  intro u hu
  obtain ⟨t, _, rfl⟩ := List.mem_map.mp hu
  exact id_lt_size t

theorem registry_find?_of_field {u : TypeName} (ht : registry.find? (schema.fullName t.id) = some t.id)
    (hu : u.id ∈ t.definition.references) : registry.find? (schema.fullName u.id) = some u.id :=
  Registry.find?_ofTypes_of_reference schema_wellFormed registered_lt ht (by rwa [schema_type_id])

/-- The nested types are found as well, by way of the fields that hold them. -/
theorem registry_find? (t : TypeName) : registry.find? (schema.fullName t.id) = some t.id := by
  have hlisted (t : TypeName) (h : t ∉ TypeName.nested) :
      registry.find? (schema.fullName t.id) = some t.id := by
    refine Registry.find?_ofTypes schema_wellFormed registered_lt (List.mem_map.mpr ⟨t, ?_, rfl⟩)
    exact List.mem_filter.mpr ⟨List.mem_of_getElem? (all_getElem?_id t), by simpa using h⟩
  have hresults := hlisted .productSearchResults (by decide)
  have hgroup := registry_find?_of_field (u := .groupedResult) hresults (by decide)
  by_cases h : t ∈ TypeName.nested
  · simp only [TypeName.nested, List.mem_cons, List.not_mem_nil, or_false] at h
    rcases h with rfl | rfl | rfl | rfl
    · exact registry_find?_of_field hresults (by decide)
    · exact registry_find?_of_field hgroup (by decide)
    · exact hgroup
    · exact registry_find?_of_field (hlisted .product (by decide)) (by decide)
  · exact hlisted t h

/-- Deciding this of a literal, one need not take its bytes apart into characters. -/
theorem slash_not_mem_ofList {cs : List Char} (h : '/' ∉ cs) : '/' ∉ (String.ofList cs).toList := by
  rwa [String.toList_ofList]

theorem slash_not_mem_fullName (t : TypeName) : '/' ∉ (schema.fullName t.id).toList := by
  rw [Schema.fullName, schema_type_id]
  cases t <;> exact slash_not_mem_ofList (by decide)

/-! ### What is packed -/

namespace Any

@[simp] theorem type_pack (x : Message) : (pack schema x).type = TypeName.any.id := by
  simp [pack, Message.empty]

theorem get_typeUrl (any : Message) :
    (Property.one 1 "type_url" .string).get any = some (.string (typeUrl any)) :=
  congrArg some (any.getD_map 1 Value.string? Value.string "")

theorem get_value (any : Message) :
    (Property.one 2 "value" .bytes).get any = some (.bytes (value any)) :=
  congrArg some (any.getD_map 2 Value.bytes? Value.bytes [])

theorem parts_of_pack (x : Message) :
    typeUrl (pack schema x) = Registry.urlBase ++ schema.fullName x.type ∧
      value (pack schema x) = x.encode schema := by
  obtain ⟨hurl, hvalue⟩ := Property.get_pair (t := .any) (a := "type_url") (b := "value")
    (v := .string (Registry.urlBase ++ schema.fullName x.type)) (w := .bytes (x.encode schema))
    (.head _) (.tail _ (.head _)) rfl rfl rfl
  have hurl' := (get_typeUrl _).symm.trans hurl
  have hvalue' := (get_value _).symm.trans hvalue
  simp only [Value.unsigned, Option.some.injEq, Value.string.injEq, Value.bytes.injEq]
    at hurl' hvalue'
  exact ⟨hurl', hvalue'⟩

theorem typeName_pack (hx : x.type = t.id) :
    typeName (pack schema x) = schema.fullName t.id := by
  rw [typeName, (parts_of_pack x).1, hx, Registry.nameOfUrl_append (slash_not_mem_fullName t)]

/-- The reader by registry takes the type that the reader of a type asks for. -/
theorem unpackFrom_of_typeName (h : typeName any = schema.fullName t.id) :
    unpackFrom schema registry any = Message.decode schema t.id .default (value any) := by
  have hfind : registry.findUrl? (typeUrl any) = some t.id := by
    rw [Registry.findUrl?, ← registry_find? t, ← h]
    rfl
  rw [unpackFrom, hfind]

theorem unpack_of_typeName_ne {S : Schema} {u : TypeId} (h : typeName any ≠ S.fullName u) :
    unpack S any u = .ok none := by
  simp [unpack, holds, h]

theorem unpack_of_typeName (h : typeName any = schema.fullName t.id) :
    unpack schema any t.id = some <$> unpackFrom schema registry any := by
  simp [unpack, holds, h, unpackFrom_of_typeName h]

end Any

/-- What readers find in a packed message of a type: the message if they ask for this type, nothing
if they ask for a type of another name in whatever schema, and the message if they ask the registry. -/
structure Unpacks (t : TypeName) (x : Message)
    (typed : (S : Schema) → TypeId → Except DecodeError (Option Message))
    (dynamic : Except DecodeError Message) : Prop where
  same : typed schema t.id = .ok (some x)
  other : ∀ S u, Schema.fullName S u ≠ schema.fullName t.id → typed S u = .ok none
  registered : dynamic = .ok x

theorem unpacks_pack (hx : Typed x) (htype : x.type = t.id)
    (hsize : (x.encode schema).length ≤ Limits.default.size) :
    Unpacks t x (Any.unpack · (Any.pack schema x))
      (Any.unpackFrom schema registry (Any.pack schema x)) := by
  have hname := Any.typeName_pack htype
  have hdynamic : Any.unpackFrom schema registry (Any.pack schema x) = .ok x := by
    rw [Any.unpackFrom_of_typeName hname, (Any.parts_of_pack x).2]
    exact hx.decode_of_encode htype hsize
  refine ⟨?_, fun S u hne => ?_, hdynamic⟩
  · rw [Any.unpack_of_typeName hname, hdynamic]
    rfl
  · exact Any.unpack_of_typeName_ne (hname ▸ hne.symm)

/-- The readers of an operation's parts are those of the packed message that stands there. -/
theorem Unpacks.part {part : Option Message} {dynamic : Except DecodeError Message}
    (h : Unpacks t x (Any.unpack · any) dynamic) (hpart : part = some any) :
    Unpacks t x (Operation.unpackPart · part) dynamic := by
  subst hpart
  exact h

/-- A typed message that was packed is unpacked as it was, from the packed message itself and from
an operation that brought it as metadata or as response; and for a packed message of any origin the
reader of a type and the reader by registry agree. -/
theorem packed_message_unpacks :
    (∀ t x, Typed x → x.type = TypeName.id t →
      (x.encode schema).length ≤ Limits.default.size →
      Unpacks t x (Any.unpack · (Any.pack schema x))
        (Any.unpackFrom schema registry (Any.pack schema x)) ∧
      ∀ op, Typed op → op.type = TypeName.operation.id →
        (op.encode schema).length ≤ Limits.default.size →
        ∃ op', Message.decode schema TypeName.operation.id .default (op.encode schema) = .ok op' ∧
          (Operation.metadata op = some (Any.pack schema x) →
            ∃ any, Operation.metadata op' = some any ∧
              Unpacks t x (Operation.metadataAs · op') (Any.unpackFrom schema registry any)) ∧
          (Operation.response op = some (Any.pack schema x) →
            ∃ any, Operation.response op' = some any ∧
              Unpacks t x (Operation.responseAs · op') (Any.unpackFrom schema registry any))) ∧
    ∀ t any, if Any.holds schema any (TypeName.id t)
      then Any.unpack schema any t.id = some <$> Any.unpackFrom schema registry any
      else Any.unpack schema any t.id = .ok none := by
  refine ⟨fun t x hx htype hsize => ?_, fun t any => ?_⟩
  · have hunpacks := unpacks_pack hx htype hsize
    refine ⟨hunpacks, fun op hop hoptype hopsize => ?_⟩
    refine ⟨op, hop.decode_of_encode hoptype hopsize, fun hmetadata => ?_, fun hresponse => ?_⟩
    · exact ⟨_, hmetadata, hunpacks.part hmetadata⟩
    · exact ⟨_, hresponse, hunpacks.part hresponse⟩
  · split
    · rename_i hholds
      exact Any.unpack_of_typeName (by simpa [Any.holds] using hholds)
    · rename_i hholds
      exact Any.unpack_of_typeName_ne (by simpa [Any.holds] using hholds)

/-- An operation with a time as its metadata. -/
def timedOperation : Message :=
  (Property.message 2 "metadata" .any).set schema (Message.empty TypeName.operation.id)
    (.message (Any.pack schema (Timestamp.at schema 42 0)))

theorem typed_timedOperation : Typed timedOperation := by
  have hp : .message 2 "metadata" .any ∈ TypeName.operation.properties := by decide
  refine (Typed.new .operation).set rfl hp ⟨_, Any.type_pack _, rfl⟩ fun x hx => ?_
  rw [List.mem_singleton.mp hx]
  exact typed_pack _

theorem time_travels_as_metadata :
    ∃ op', Message.decode schema TypeName.operation.id .default (timedOperation.encode schema) =
        .ok op' ∧
      Operation.metadataAs schema op' TypeName.timestamp.id =
        .ok (some (Timestamp.at schema 42 0)) ∧
      Operation.metadataAs schema op' TypeName.empty.id = .ok none := by
  obtain ⟨_, htravels⟩ := packed_message_unpacks.1 .timestamp (Timestamp.at schema 42 0)
    (typed_timestamp 42 0) (by cbv) (by cbv)
  obtain ⟨op', hdecode, hmetadata, _⟩ :=
    htravels timedOperation typed_timedOperation (Message.type_write ..) (by decide +kernel)
  obtain ⟨any, _, hunpacks⟩ := hmetadata rfl
  exact ⟨op', hdecode, hunpacks.same, hunpacks.other schema TypeName.empty.id (by decide +kernel)⟩

end Protowire.Vision
