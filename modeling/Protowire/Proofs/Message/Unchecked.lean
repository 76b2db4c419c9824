import Protowire.Proofs.Message.Grammar
import Protowire.Proofs.Message.Height

/-!
Which messages the decoder reads back at all. The unchecked writes may put anything into a field,
and the encoder leaves out what does not fit. What it writes nevertheless can be read, with one
exception: a list in a singular field of numbers is written packed, as that of a repeated field
would be, and a singular field is not read packed. So the bytes of a message can be read just when
no such list stands in it or in a message that is written with it.
-/

namespace Protowire

open Reader Wire

/-- A list with elements in a singular field of numbers. -/
def Field.Strays (f : Field) (v : Value) : Prop :=
  f.repeated = false ∧ f.kind.packable ∧ ∃ items, v = .list items ∧ items ≠ []

/-- No list stands where it cannot be read, here or in the messages that are written. -/
inductive Message.NoStrayList (S : Schema) : Message → Prop
  | intro {m : Message}
    (here : ∀ p ∈ m.fields, ∀ f, (S.type m.type).field? p.1 = some f → ¬f.Strays p.2)
    (inside : ∀ p ∈ m.fields, ∀ f, (S.type m.type).field? p.1 = some f →
      ∀ x ∈ p.2.messages, f.kind.accepts S (.message x) → NoStrayList S x) : NoStrayList S m

/-- Bytes of a message of type `t`, whatever they say. -/
def Readable (S : Schema) (room : Nat) (t : TypeId) (bs : List UInt8) : Prop :=
  ∃ entries, MessageForm S room t bs entries

variable {S : Schema} {room n : Nat} {t u : TypeId} {f : Field} {s : Scalar} {v : Value}
  {items : List Value} {m x : Message} {form bytes rest : List UInt8}

/-! ### Record by record -/

theorem readable_nil (S : Schema) (room : Nat) (t : TypeId) : Readable S room t [] := ⟨[], .nil⟩

theorem readable_append_iff {r : Record} (h : Record.Form (S.type t) room form r) :
    Readable S room t (form ++ rest) ↔
      (∀ f u bytes, r = .body f u bytes → Readable S (room - 1) u bytes) ∧
        Readable S room t rest := by
  constructor
  · rintro ⟨entries, hform⟩
    have hbehind := hform.behind h rfl
    cases r with
    | unknown => exact ⟨nofun, entries, hbehind⟩
    | value | packed =>
      obtain ⟨others, _, hrest⟩ := hbehind
      exact ⟨nofun, others, hrest⟩
    | body f u bytes =>
      obtain ⟨inner, others, _, hbody, hrest⟩ := hbehind
      refine ⟨fun _ _ _ heq => ?_, others, hrest⟩
      cases heq
      exact ⟨inner, hbody⟩
  · rintro ⟨hbody, entries, hrest⟩
    cases r with
    | unknown => exact ⟨entries, .unknown h hrest⟩
    | value => exact ⟨_, .value h hrest⟩
    | packed => exact ⟨_, .packed h hrest⟩
    | body f u bytes =>
      obtain ⟨inner, hbody⟩ := hbody f u bytes rfl
      exact ⟨_, .body h hbody hrest⟩

/-- Where no record can be read, nothing can. -/
theorem not_readable_of_error {bs : List UInt8} {e : DecodeError} (hne : bs ≠ [])
    (h : Record.read (S.type t) ⟨0, room⟩ bs = .error e rest) : ¬Readable S room t bs := by
  rintro ⟨entries, hform⟩
  have hcontra {form rest' : List UInt8} {r : Record} (hrecord : Record.Form (S.type t) room form r)
      (hbs : bs = form ++ rest') : False := by
    have hread : Record.read (S.type t) ⟨0, room⟩ (form ++ rest') = .ok r rest' :=
      Record.Form.read hrecord rest'
    rw [hbs, hread] at h
    cases h
  cases hform with
  | nil => exact hne rfl
  | unknown hrecord | value hrecord | packed hrecord | body hrecord => exact hcontra hrecord rfl

/-! ### What is written of a field -/

section

variable (hS : S.WellFormed) (hf : (S.type t).field? n = some f)

include hS hf

theorem readable_writeTagged_iff (hkind : f.kind = .scalar s)
    (hlength : (s.writeTagged n v).length < 2 ^ 64) :
    Readable S room t (s.writeTagged n v ++ rest) ↔ Readable S room t rest := by
  by_cases hv : s.accepts v
  · rw [readable_append_iff (Record.form_writeTagged (hS.type t) hf hkind hv hlength)]
    simp
  · rw [Scalar.writeTagged, if_neg hv]
    rfl

theorem readable_flatMap_writeTagged_iff (hkind : f.kind = .scalar s)
    (hlength : (items.flatMap (s.writeTagged n)).length < 2 ^ 64) :
    Readable S room t (items.flatMap (s.writeTagged n) ++ rest) ↔ Readable S room t rest := by
  induction items with
  | nil => rfl
  | cons v items ih =>
    rw [List.flatMap_cons, List.length_append] at hlength
    rw [List.flatMap_cons, List.append_assoc,
      readable_writeTagged_iff hS hf hkind (by omega), ih (by omega)]

theorem readable_writePacked_iff (hkind : f.kind = .scalar s) (hpackable : s.packable)
    (hlength : (s.writePacked n items).length < 2 ^ 64) :
    Readable S room t (s.writePacked n items ++ rest) ↔ f.repeated ∧ Readable S room t rest := by
  cases hrepeated : f.repeated with
  | true =>
    rw [readable_append_iff
      (Record.form_writePacked (hS.type t) hf hkind hrepeated hpackable hlength)]
    simp
  | false =>
    -- the tag announces a run, which is not how a singular field is read
    have htag := tagForm_of_field (hS.type t) hf .lengthDelimited
    have hwire : WireType.lengthDelimited ≠ s.wire := (Scalar.wire_of_packable hpackable).symm
    have hfield (value : List UInt8) :
        Record.readField (S.type t) ⟨0, room⟩ f .lengthDelimited value =
          .error (.wireTypeMismatch (S.type t).fullName f.number s.wire .lengthDelimited) value := by
      simp only [Record.readField, hkind, hrepeated, Bool.false_and, Bool.false_eq_true, ↓reduceIte,
        hwire]
    simp only [Scalar.writePacked, writeDelimited, Bool.false_eq_true, false_and, iff_false,
      List.append_assoc]
    refine not_readable_of_error ?_ ((Record.read_declared hf (by decide) htag _).trans (hfield _))
    obtain ⟨b, bs, hcons⟩ := htag.append_eq_cons
      (delimited ((items.filter s.accepts).flatMap s.write) ++ rest)
    rw [hcons]
    exact List.cons_ne_nil b bs

theorem readable_writeDelimited_iff (hkind : f.kind = .message u) (hroom : 0 < room)
    (hlength : (writeDelimited n bytes).length < 2 ^ 64) :
    Readable S room t (writeDelimited n bytes ++ rest) ↔
      Readable S (room - 1) u bytes ∧ Readable S room t rest := by
  obtain ⟨tag, value, htag, hvalue, hform⟩ := bodyForm_writeDelimited (hS.type t) hf hlength
  rw [hform, readable_append_iff (.body hf hkind hroom htag hvalue)]
  simp

theorem readable_encodeField_scalar_iff (hkind : f.kind = .scalar s) (hnumber : f.number = n)
    (hlength : (encodeField S f v).length < 2 ^ 64) :
    Readable S room t (encodeField S f v ++ rest) ↔ ¬f.Strays v ∧ Readable S room t rest := by
  cases v with
  | list items =>
    simp only [encodeField, hkind, hnumber, Scalar.writeList] at hlength ⊢
    by_cases hempty : items.isEmpty
    · have hplaced : ¬f.Strays (.list items) := by
        rintro ⟨_, _, _, hlist, hne⟩
        cases hlist
        exact hne (by simpa using hempty)
      rw [if_pos hempty, List.nil_append]
      exact (and_iff_right hplaced).symm
    · rw [if_neg hempty] at hlength ⊢
      have hstrays : f.Strays (.list items) ↔ f.repeated = false ∧ s.packable := by
        constructor
        · rintro ⟨hsingular, hpackable, _⟩
          exact ⟨hsingular, by simpa [hkind, Kind.packable] using hpackable⟩
        · rintro ⟨hsingular, hpackable⟩
          exact ⟨hsingular, by simpa [hkind, Kind.packable] using hpackable, items, rfl,
            by simpa using hempty⟩
      rw [hstrays]
      by_cases hpackable : s.packable
      · rw [if_pos hpackable] at hlength ⊢
        rw [readable_writePacked_iff hS hf hkind hpackable hlength]
        simp [hpackable]
      · rw [if_neg hpackable] at hlength ⊢
        rw [readable_flatMap_writeTagged_iff hS hf hkind hlength]
        simp [hpackable]
  | message x =>
    have haccepts : f.kind.accepts S (.message x) = false := by
      rw [hkind]
      cases s <;> rfl
    rw [encodeField, haccepts, if_neg Bool.false_ne_true, List.nil_append]
    simp [Field.Strays]
  | _ =>
    simp only [encodeField, hkind, hnumber] at hlength ⊢
    split
    · simp [Field.Strays]
    · rename_i hwritten
      rw [if_neg hwritten] at hlength
      rw [readable_writeTagged_iff hS hf hkind hlength]
      simp [Field.Strays]

end

/-! ### Message by message -/

/-- Whether the bytes of a message can be read as those of type `u` depends on the lists in it. -/
def Message.Judged (S : Schema) (room : Nat) (u : TypeId) (x : Message) : Prop :=
  (x.encode S).length < 2 ^ 64 → (Readable S room u (x.encode S) ↔ x.NoStrayList S)

/-- The messages in a value that the field takes are judged, and there is room for them. -/
def Value.Judged (S : Schema) (room : Nat) (f : Field) (v : Value) : Prop :=
  ∀ x ∈ v.messages, ∀ u, f.kind = .message u → f.kind.accepts S (.message x) →
    0 < room ∧ x.Judged S (room - 1) u

theorem readable_message_iff (hS : S.WellFormed) (hf : (S.type t).field? n = some f)
    (hkind : f.kind = .message u) (hroom : 0 < room) (hx : x.Judged S (room - 1) u)
    (hlength : (writeDelimited n (x.encode S)).length < 2 ^ 64) :
    Readable S room t (writeDelimited n (x.encode S) ++ rest) ↔
      x.NoStrayList S ∧ Readable S room t rest := by
  rw [readable_writeDelimited_iff hS hf hkind hroom hlength,
    hx (length_lt_of_writeDelimited hlength)]

theorem readable_encodeMessages_iff (hS : S.WellFormed) (hf : (S.type t).field? n = some f)
    (hkind : f.kind = .message u) (hx : (Value.list items).Judged S room f)
    (hlength : (encodeMessages S n u items).length < 2 ^ 64) :
    Readable S room t (encodeMessages S n u items ++ rest) ↔
      (∀ x ∈ (Value.list items).messages, f.kind.accepts S (.message x) → x.NoStrayList S) ∧
        Readable S room t rest := by
  induction items with
  | nil => simp [encodeMessages, Value.messages]
  | cons v items ih =>
    cases v with
    | message x =>
      have hmessages : (Value.list (.message x :: items)).messages =
          x :: (Value.list items).messages := rfl
      rw [Value.Judged, hmessages, List.forall_mem_cons] at hx
      rw [encodeMessages, List.length_append] at hlength
      rw [hmessages, List.forall_mem_cons, encodeMessages, List.append_assoc]
      by_cases hname : S.fullName x.type = S.fullName u
      · have haccepts : f.kind.accepts S (.message x) := by simpa [hkind, Kind.accepts] using hname
        obtain ⟨hroom, hjudged⟩ := hx.1 u hkind haccepts
        rw [if_pos hname] at hlength ⊢
        rw [readable_message_iff hS hf hkind hroom hjudged (by omega), ih hx.2 (by omega)]
        simp only [haccepts, true_implies, and_assoc]
      · have haccepts : f.kind.accepts S (.message x) = false := by
          simpa [hkind, Kind.accepts] using hname
        rw [if_neg hname] at hlength ⊢
        rw [List.nil_append, ih hx.2 (by omega)]
        simp [haccepts]
    | _ => exact ih hx (by simpa only [encodeMessages] using hlength)

theorem readable_encodeField_iff (hS : S.WellFormed) (hf : (S.type t).field? n = some f)
    (hx : v.Judged S room f) (hlength : (encodeField S f v).length < 2 ^ 64) :
    Readable S room t (encodeField S f v ++ rest) ↔
      (¬f.Strays v ∧ ∀ x ∈ v.messages, f.kind.accepts S (.message x) → x.NoStrayList S) ∧
        Readable S room t rest := by
  have hnumber := MessageType.number_of_field? hf
  cases hkind : f.kind with
  | scalar s =>
    have hnone (x : Message) : (Kind.scalar s).accepts S (.message x) = false := by
      cases s <;> rfl
    rw [readable_encodeField_scalar_iff hS hf hkind hnumber hlength]
    simp [hnone]
  | message u =>
    have hplaced : ¬f.Strays v := by
      rintro ⟨_, hpackable, _⟩
      simp [hkind, Kind.packable] at hpackable
    rw [← hkind, and_iff_right hplaced]
    cases v with
    | list items =>
      simp only [encodeField, hkind, hnumber] at hlength ⊢
      rw [readable_encodeMessages_iff hS hf hkind hx hlength, hkind]
    | message x =>
      have hmem : x ∈ (Value.message x).messages := List.mem_singleton.mpr rfl
      rw [encodeField] at hlength ⊢
      split
      · rename_i haccepts
        obtain ⟨hroom, hjudged⟩ := hx x hmem u hkind haccepts
        rw [if_pos haccepts, hnumber] at hlength
        rw [hnumber, readable_message_iff hS hf hkind hroom hjudged hlength]
        simp [Value.messages, haccepts]
      · rename_i haccepts
        simp [Value.messages, haccepts]
    | _ => simp [encodeField, hkind, Value.messages]

theorem readable_encodeFields_iff {fields : List (Nat × Value)} (hS : S.WellFormed)
    (hx : ∀ p ∈ fields, ∀ f, (S.type t).field? p.1 = some f → p.2.Judged S room f)
    (hlength : (encodeFields S (S.type t) fields).length < 2 ^ 64) :
    Readable S room t (encodeFields S (S.type t) fields) ↔
      ∀ p ∈ fields, ∀ f, (S.type t).field? p.1 = some f → ¬f.Strays p.2 ∧
        ∀ x ∈ p.2.messages, f.kind.accepts S (.message x) → x.NoStrayList S := by
  induction fields with
  | nil => simp [encodeFields, readable_nil]
  | cons p fields ih =>
    obtain ⟨n, v⟩ := p
    obtain ⟨hhere, hothers⟩ := List.forall_mem_cons.mp hx
    rw [encodeFields, List.length_append] at hlength
    rw [List.forall_mem_cons, encodeFields]
    cases hf : (S.type t).field? n with
    | none => simpa [hf] using ih hothers (by omega)
    | some f =>
      have hjudged : v.Judged S room f := hhere f hf
      simp only [hf] at hlength ⊢
      rw [readable_encodeField_iff hS hf hjudged (by omega), ih hothers (by omega)]
      simp

theorem Message.noStrayList_iff : m.NoStrayList S ↔
    ∀ p ∈ m.fields, ∀ f, (S.type m.type).field? p.1 = some f → ¬f.Strays p.2 ∧
      ∀ x ∈ p.2.messages, f.kind.accepts S (.message x) → x.NoStrayList S := by
  constructor
  · rintro ⟨here, inside⟩ p hp f hf
    exact ⟨here p hp f hf, inside p hp f hf⟩
  · intro h
    exact ⟨fun p hp f hf => (h p hp f hf).1, fun p hp f hf => (h p hp f hf).2⟩

theorem Value.height_of_mem_messages (hx : x ∈ v.messages) : x.height < v.height := by
  cases v with
  | message y =>
    rw [messages, List.mem_singleton] at hx
    rw [hx, height]
    exact Nat.lt_succ_self _
  | list items =>
    obtain ⟨w, hw, hwx⟩ := List.mem_filterMap.mp hx
    cases w <;> cases hwx
    have hle := itemsHeight_le_iff.mp (Nat.le_refl (itemsHeight items)) _ hw
    rwa [height] at hle
  | _ => simp [messages] at hx

theorem encodeFields_eq_nil {T : MessageType} (hT : ∀ n, T.field? n = none)
    (fields : List (Nat × Value)) : encodeFields S T fields = [] := by
  induction fields with
  | nil => rw [encodeFields]
  | cons p fields ih =>
    rw [encodeFields, ih]
    simp [hT]

/-- A message whose type bears the name of `u` is of type `u`, or its type is none of the schema and
nothing is written of it. -/
theorem Message.Judged.of_fullName (hS : S.WellFormed) (hu : u < S.types.size)
    (hname : S.fullName x.type = S.fullName u) (h : x.Judged S room x.type) :
    x.Judged S room u := by
  by_cases ht : x.type < S.types.size
  · rwa [hS.eq_of_fullName_eq ht hu hname] at h
  · have hnone (n : Nat) : (S.type x.type).field? n = none := by
      simp [Schema.type, ht, MessageType.field?, MessageType.empty]
    have hplaced : x.NoStrayList S := noStrayList_iff.mpr fun p _ f hf => by
      rw [hnone] at hf
      cases hf
    intro _
    rw [← x.eta, encode, encodeFields_eq_nil hnone, x.eta]
    exact iff_of_true (readable_nil S room u) hplaced

/-- The induction is on the room, of which each message in a message takes one level. -/
theorem Message.judged (hS : S.WellFormed) (hm : m.height ≤ room) : m.Judged S room m.type := by
  induction room using Nat.strongRecOn generalizing m with
  | ind room ih =>
    intro hlength
    obtain ⟨t, fields⟩ := m
    rw [encode] at hlength ⊢
    rw [noStrayList_iff]
    refine readable_encodeFields_iff hS (fun p hp f hf x hx u hkind haccepts => ?_) hlength
    have hheight := height_le_iff.mp hm p hp
    have hlt := Value.height_of_mem_messages hx
    have hroom : 0 < room := by omega
    have hname : S.fullName x.type = S.fullName u := by simpa [hkind, Kind.accepts] using haccepts
    have hu := (hS.type t).references f (MessageType.mem_of_field? hf) u hkind
    exact ⟨hroom, .of_fullName hS hu hname (ih (room - 1) (by omega) (by omega))⟩

/-- Decoding succeeds on bytes of the size that the limits admit if they can be read. -/
theorem exists_decode_iff (hS : S.WellFormed) (ht : t < S.types.size) {limits : Limits}
    {bs : List UInt8} (hsize : bs.length ≤ limits.size) :
    (∃ x, Message.decode S t limits bs = .ok x) ↔ Readable S limits.recursion t bs := by
  have hempty : (Message.empty t).Canonical S := .empty ht
  have hroom : limits.nesting.room = limits.recursion := rfl
  constructor
  · rintro ⟨x, h⟩
    exact exists_messageForm hS hempty (Message.decode_eq_ok_iff.mp h).2.1
  · rintro ⟨entries, hform⟩
    have hmerge := hform.merge_eq hS hroom hempty rfl
    exact ⟨_, Message.decode_eq_ok_iff.mpr ⟨hsize, by rw [hmerge], rfl⟩⟩

/-- Of a message that nests no deeper and is no longer than the limits admit, the decoder takes the
bytes just when no list stands in a singular field of numbers. -/
theorem encoding_decodes_iff (hS : S.WellFormed) (ht : m.type < S.types.size) (limits : Limits)
    (hsize : limits.size < UInt64.size) (hfits : (m.encode S).length ≤ limits.size)
    (hdeep : m.height ≤ limits.recursion) :
    (∃ x, Message.decode S m.type limits (m.encode S) = .ok x) ↔ m.NoStrayList S := by
  simp only [UInt64.size] at hsize
  rw [exists_decode_iff hS ht hfits]
  exact Message.judged hS hdeep (by omega)

section

open Vision

/-- An operation with two names and a number between them, a number as its metadata, and a flag. -/
def disarrayedOperation : Message :=
  ⟨TypeName.operation.id,
    [(1, .list [.string "a", .int32 3, .string "b"]), (2, .int32 7), (3, .bool true)]⟩

/-- The numbers do not fit and are left out; of the two names the last one counts. -/
theorem disarrayedOperation_decodes :
    ∃ x, Message.decode schema TypeName.operation.id Limits.default
      (disarrayedOperation.encode schema) = .ok x := by
  have hplaced : disarrayedOperation.NoStrayList schema := by
    rw [Message.noStrayList_iff, disarrayedOperation, schema_type_id]
    have hname : TypeName.operation.definition.field? 1 = some (.one 1 "name" .string) := by decide
    simp only [List.forall_mem_cons, hname, Option.some.injEq, forall_eq']
    refine ⟨⟨?_, ?_⟩, fun f _ => ⟨?_, ?_⟩, fun f _ => ⟨?_, ?_⟩, by simp⟩
    · rintro ⟨_, hpackable, _⟩
      cases hpackable
    all_goals simp [Value.messages, Value.message?, Field.Strays]
  have hencode : disarrayedOperation.encode schema = [10, 1, 97, 10, 1, 98, 24, 1] := by cbv
  have hheight : disarrayedOperation.height = 0 := rfl
  refine (encoding_decodes_iff schema_wellFormed (id_lt_size .operation) Limits.default (by decide)
    ?_ ?_).mpr hplaced
  · rw [hencode]
    decide
  · rw [hheight]
    decide

/-- An operation with a list in place of its flag. -/
def strayOperation : Message :=
  (Message.empty TypeName.operation.id).put schema 3 (.list [.bool true])

/-- Three bytes without any nesting, which the decoder refuses. -/
theorem strayOperation_refused :
    strayOperation.encode schema = [26, 1, 1] ∧ strayOperation.height = 0 ∧
      Message.decode schema TypeName.operation.id Limits.default (strayOperation.encode schema) =
        .error (.wireTypeMismatch "google.longrunning.Operation" 3 .varint .lengthDelimited) := by
  have hencode : strayOperation.encode schema = [26, 1, 1] := by cbv
  refine ⟨hencode, by cbv, ?_⟩
  rw [hencode]
  cbv

end

end Protowire
