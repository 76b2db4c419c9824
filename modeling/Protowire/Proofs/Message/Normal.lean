import Protowire.Proofs.FieldMap
import Protowire.Proofs.Message.Height
import Protowire.Proofs.Message.Names
import Protowire.Proofs.Wire.Shortest

/-!
Canonical bytes, and decoding followed by encoding as the way to them. Canonical bytes are
described record by record, without the encoder: which records may stand behind which, and that
every number in them is in its canonical form. The bytes of canonical messages are canonical, and
all canonical bytes are the bytes of such a message; so what decoding and encoding leave as it is
are just these.
-/

namespace Protowire

open Reader Wire

/-- A record of the field `f` may stand in front of records of these fields. Its own field follows
only if it is repeated and its elements cannot stand together; all others have larger numbers, and
none is of its oneof group. -/
def MessageType.Precedes (T : MessageType) (f : Field) (following : List Field) : Prop :=
  ∀ g ∈ following, (g = f ∧ f.repeated ∧ f.kind.packable = false) ∨
    (f.number < g.number ∧ T.excludes f.number g.number = false)

/-- The canonical bytes of messages of a type, and the fields of their records. -/
inductive CanonicalForm (S : Schema) : TypeId → List UInt8 → List Field → Prop
  | nil {t : TypeId} : CanonicalForm S t [] []
  | value {t : TypeId} {n : Nat} {f : Field} {s : Scalar} {v : Value} {tag value rest : List UInt8}
    {following : List Field} (hfield : (S.type t).field? n = some f) (hkind : f.kind = .scalar s)
    (hapart : f.repeated → s.packable = false)
    (hpresence : f.repeated = false → f.tracksPresence = false → v.isDefault = false)
    (htag : Shortest TagForm tag (n, s.wire)) (hvalue : s.CanonicalForm value v)
    (hrest : CanonicalForm S t rest following) (hbefore : (S.type t).Precedes f following) :
    CanonicalForm S t (tag ++ value ++ rest) (f :: following)
  | packed {t : TypeId} {n : Nat} {f : Field} {s : Scalar} {vs : List Value}
    {tag value region rest : List UInt8} {following : List Field}
    (hfield : (S.type t).field? n = some f) (hkind : f.kind = .scalar s) (hrepeated : f.repeated)
    (hpackable : s.packable) (hvs : vs ≠ []) (htag : Shortest TagForm tag (n, .lengthDelimited))
    (hvalue : Shortest DelimitedForm value region) (hrun : s.CanonicalRun region vs)
    (hrest : CanonicalForm S t rest following) (hbefore : (S.type t).Precedes f following) :
    CanonicalForm S t (tag ++ value ++ rest) (f :: following)
  | body {t u : TypeId} {n : Nat} {f : Field} {tag value bytes rest : List UInt8}
    {inner following : List Field} (hfield : (S.type t).field? n = some f)
    (hkind : f.kind = .message u) (htag : Shortest TagForm tag (n, .lengthDelimited))
    (hvalue : Shortest DelimitedForm value bytes) (hbody : CanonicalForm S u bytes inner)
    (hrest : CanonicalForm S t rest following) (hbefore : (S.type t).Precedes f following) :
    CanonicalForm S t (tag ++ value ++ rest) (f :: following)

variable {S : Schema} {m : Message} {f : Field} {n : Nat} {t : TypeId} {v : Value}
  {rest : List UInt8} {following : List Field}

/-! ### One record for one value -/

/-- The record of a value that stands under a tag of its own. -/
def encodeElement (S : Schema) (f : Field) (v : Value) : List UInt8 :=
  match f.kind, v with
  | .scalar s, v => s.writeTagged f.number v
  | .message _, .message x => writeDelimited f.number (x.encode S)
  | .message _, _ => []

theorem encodeElement_scalar {s : Scalar} (hkind : f.kind = .scalar s) (v : Value) :
    encodeElement S f v = s.writeTagged f.number v := by
  simp only [encodeElement, hkind]

theorem encodeElement_message {u : TypeId} (hkind : f.kind = .message u) (x : Message) :
    encodeElement S f (.message x) = writeDelimited f.number (x.encode S) := by
  simp only [encodeElement, hkind]

theorem encodeField_of_singular (haccepts : f.kind.accepts S v)
    (hpresence : f.tracksPresence = false → v.isDefault = false) :
    encodeField S f v = encodeElement S f v := by
  cases hkind : f.kind with
  | scalar s =>
    rw [hkind] at haccepts
    rw [encodeField_scalar hkind haccepts hpresence, encodeElement_scalar hkind]
  | message u =>
    obtain ⟨x, rfl⟩ := Field.exists_message_of_accepts hkind haccepts
    rw [encodeField_message haccepts, encodeElement_message hkind]

/-- Elements that cannot stand together have a record each. -/
theorem encodeField_list (hapart : f.kind.packable = false) {items : List Value}
    (haccepts : ∀ v ∈ items, f.kind.accepts S v) :
    encodeField S f (.list items) = items.flatMap (encodeElement S f) := by
  cases hkind : f.kind with
  | scalar s =>
    rw [hkind, Kind.packable] at hapart
    have helement : encodeElement S f = s.writeTagged f.number :=
      funext (encodeElement_scalar hkind)
    simp only [encodeField, hkind, Scalar.writeList, hapart, helement, Bool.false_eq_true,
      ↓reduceIte]
    split
    · rename_i hempty
      rw [List.isEmpty_iff.mp hempty, List.flatMap_nil]
    · rfl
  | message u =>
    simp only [encodeField, hkind]
    induction items with
    | nil => rfl
    | cons v items ih =>
      obtain ⟨hv, hitems⟩ := List.forall_mem_cons.mp haccepts
      obtain ⟨x, rfl⟩ := Field.exists_message_of_accepts hkind hv
      rw [hkind, Kind.accepts, decide_eq_true_eq] at hv
      rw [encodeMessages, if_pos hv, ih hitems, List.flatMap_cons, encodeElement_message hkind]

theorem legal_of_field (hS : S.WellFormed) (hf : (S.type t).field? n = some f) :
    minFieldNumber ≤ n ∧ n ≤ maxFieldNumber := by
  have hlegal := (hS.type t).legal f (MessageType.mem_of_field? hf)
  rwa [MessageType.number_of_field? hf] at hlegal

/-! ### The bytes of a message are canonical -/

/-- The bytes of a message are canonical, if they are not too many. -/
def Message.WritesCanonical (S : Schema) (x : Message) : Prop :=
  (x.encode S).length < 2 ^ 64 → ∃ fields, CanonicalForm S x.type (x.encode S) fields

theorem CanonicalForm.element (hS : S.WellFormed) (hf : (S.type t).field? n = some f)
    (haccepts : f.kind.accepts S v) (hcanonical : v.Canonical S)
    (hwrites : ∀ x ∈ v.messages, x.WritesCanonical S)
    (hapart : f.repeated → f.kind.packable = false)
    (hpresence : f.repeated = false → f.tracksPresence = false → v.isDefault = false)
    (hlength : (encodeElement S f v).length < 2 ^ 64) (hrest : CanonicalForm S t rest following)
    (hbefore : (S.type t).Precedes f following) :
    CanonicalForm S t (encodeElement S f v ++ rest) (f :: following) := by
  obtain rfl := MessageType.number_of_field? hf
  obtain ⟨hmin, hmax⟩ := legal_of_field hS hf
  cases hkind : f.kind with
  | scalar s =>
    rw [hkind] at haccepts hapart
    have hv : s.accepts v := haccepts
    rw [encodeElement_scalar hkind, Scalar.writeTagged, if_pos hv] at hlength ⊢
    rw [List.length_append] at hlength
    exact .value hf hkind hapart hpresence ((shortest_tagForm_iff hmin hmax).mpr rfl)
      (Scalar.canonicalForm_write hv (by omega)) hrest hbefore
  | message u =>
    obtain ⟨x, rfl⟩ := Field.exists_message_of_accepts hkind haccepts
    have hx : x ∈ (Value.message x).messages := List.mem_singleton.mpr rfl
    have htype := (hcanonical x hx).type_eq hS (hS.type t) (MessageType.mem_of_field? hf) hkind
      haccepts
    rw [encodeElement_message hkind] at hlength ⊢
    simp only [writeDelimited, List.length_append] at hlength ⊢
    have hbytes : (x.encode S).length < 2 ^ 64 := length_lt_of_delimited (by omega)
    obtain ⟨inner, hbody⟩ := hwrites x hx hbytes
    rw [htype] at hbody
    exact .body hf hkind ((shortest_tagForm_iff hmin hmax).mpr rfl)
      ((shortest_delimitedForm_iff hbytes).mpr rfl) hbody hrest hbefore

/-- The induction is on the elements; each has those behind it and the other fields to follow. -/
theorem CanonicalForm.elements {items : List Value} (hS : S.WellFormed)
    (hf : (S.type t).field? n = some f) (hrepeated : f.repeated) (hapart : f.kind.packable = false)
    (haccepts : ∀ v ∈ items, f.kind.accepts S v) (hcanonical : (Value.list items).Canonical S)
    (hwrites : ∀ x ∈ (Value.list items).messages, x.WritesCanonical S)
    (hlength : (items.flatMap (encodeElement S f)).length < 2 ^ 64)
    (hrest : CanonicalForm S t rest following) (hbefore : (S.type t).Precedes f following) :
    ∃ own, (∀ g ∈ own, g = f) ∧
      CanonicalForm S t (items.flatMap (encodeElement S f) ++ rest) (own ++ following) := by
  induction items with
  | nil => exact ⟨[], by simp, hrest⟩
  | cons v items ih =>
    obtain ⟨hv, hitems⟩ := List.forall_mem_cons.mp haccepts
    have hsub : ∀ x ∈ (Value.list items).messages, x ∈ (Value.list (v :: items)).messages := by
      intro x hx
      obtain ⟨w, hw, hwx⟩ := List.mem_filterMap.mp hx
      exact List.mem_filterMap.mpr ⟨w, List.mem_cons_of_mem v hw, hwx⟩
    have hvmessages : ∀ x ∈ v.messages, x ∈ (Value.list (v :: items)).messages :=
      fun x hx => Value.mem_messages_list hv List.mem_cons_self hx
    rw [List.flatMap_cons, List.length_append] at hlength
    obtain ⟨own, hown, hform⟩ := ih hitems (fun x hx => hcanonical x (hsub x hx))
      (fun x hx => hwrites x (hsub x hx)) (by omega)
    refine ⟨f :: own, by simpa using hown, ?_⟩
    rw [List.flatMap_cons, List.append_assoc]
    refine .element hS hf hv (fun x hx => hcanonical x (hvmessages x hx))
      (fun x hx => hwrites x (hvmessages x hx)) (fun _ => hapart) (by simp [hrepeated]) (by omega)
      hform fun g hg => ?_
    rcases List.mem_append.mp hg with hg | hg
    · exact .inl ⟨hown g hg, hrepeated, hapart⟩
    · exact hbefore g hg

/-- A field of a canonical message in front of canonical bytes. -/
theorem CanonicalForm.field (hS : S.WellFormed) (hf : (S.type t).field? n = some f)
    (hv : f.Holds S v) (hcanonical : v.Canonical S)
    (hwrites : ∀ x ∈ v.messages, x.WritesCanonical S)
    (hlength : (encodeField S f v).length < 2 ^ 64) (hrest : CanonicalForm S t rest following)
    (hbefore : (S.type t).Precedes f following) :
    ∃ own, (∀ g ∈ own, g = f) ∧
      CanonicalForm S t (encodeField S f v ++ rest) (own ++ following) := by
  cases hv with
  | one hsingular haccepts hpresence =>
    rw [encodeField_of_singular haccepts hpresence] at hlength ⊢
    exact ⟨[f], by simp, .element hS hf haccepts hcanonical hwrites (by simp [hsingular])
      (fun _ => hpresence) hlength hrest hbefore⟩
  | @many items hrepeated hitems haccepts =>
    cases hpackable : f.kind.packable with
    | false =>
      rw [encodeField_list hpackable haccepts] at hlength ⊢
      exact CanonicalForm.elements hS hf hrepeated hpackable haccepts hcanonical hwrites
        hlength hrest hbefore
    | true =>
      obtain rfl := MessageType.number_of_field? hf
      obtain ⟨hmin, hmax⟩ := legal_of_field hS hf
      cases hkind : f.kind with
      | message u => rw [hkind] at hpackable; cases hpackable
      | scalar s =>
        rw [hkind] at hpackable haccepts
        have hs : s.packable := hpackable
        have hvs : ∀ v ∈ items, s.accepts v := haccepts
        have hencode : encodeField S f (.list items) =
            writeTag f.number .lengthDelimited ++ delimited (items.flatMap s.write) := by
          have hempty : items.isEmpty = false := by simpa using hitems
          simp only [encodeField, hkind, Scalar.writeList, hempty, hs, Scalar.writePacked,
            List.filter_eq_self.mpr hvs, writeDelimited, Bool.false_eq_true, ↓reduceIte]
        rw [hencode] at hlength ⊢
        rw [List.length_append] at hlength
        have hregion : (items.flatMap s.write).length < 2 ^ 64 :=
          length_lt_of_delimited (by omega)
        refine ⟨[f], by simp, ?_⟩
        exact .packed hf hkind hrepeated hs hitems ((shortest_tagForm_iff hmin hmax).mpr rfl)
          ((shortest_delimitedForm_iff hregion).mpr rfl) (Scalar.canonicalRun_write hvs hregion)
          hrest hbefore

/-- The induction is on the fields from the last one forward. -/
theorem CanonicalForm.fields {front back : FieldMap Value} (hS : S.WellFormed)
    (hm : (⟨t, front ++ back⟩ : Message).Canonical S)
    (hwrites : ∀ p ∈ back, ∀ x ∈ p.2.messages, x.WritesCanonical S)
    (hlength : (encodeFields S (S.type t) back).length < 2 ^ 64) :
    ∃ fields, CanonicalForm S t (encodeFields S (S.type t) back) fields ∧
      ∀ g ∈ fields, ∃ p ∈ back, p.1 = g.number := by
  induction back generalizing front with
  | nil => exact ⟨[], .nil, by simp⟩
  | cons p back ih =>
    obtain ⟨n, v⟩ := p
    obtain ⟨hhere, hothers⟩ := List.forall_mem_cons.mp hwrites
    have hget {q : Nat × Value} (hq : q ∈ (n, v) :: back) :
        (⟨t, front ++ (n, v) :: back⟩ : Message).get? q.1 = some q.2 :=
      hm.shaped.ascending.get?_eq_some_iff.mpr (List.mem_append_right _ hq)
    have hn := hget List.mem_cons_self
    obtain ⟨f, hf, hholds⟩ := hm.shaped.stored n v hn
    have hsplit := (List.append_cons front (n, v) back).symm
    simp only [encodeFields, hf, List.length_append] at hlength ⊢
    obtain ⟨following, hrest, hnumbers⟩ := ih (hsplit ▸ hm) hothers (by omega)
    have hbefore : (S.type t).Precedes f following := by
      intro g hg
      obtain ⟨q, hq, hqg⟩ := hnumbers g hg
      have hset := hget (List.mem_cons_of_mem (n, v) hq)
      have hascending := (List.pairwise_append.mp hm.shaped.ascending).2.1
      have hlt : n < q.1 := (List.pairwise_cons.mp hascending).1 q hq
      rw [MessageType.number_of_field? hf, ← hqg]
      exact .inr ⟨hlt, hm.excludes_eq_false (by simp [hn]) (by simp [hset])⟩
    obtain ⟨own, hown, hform⟩ := CanonicalForm.field hS hf hholds (hm.value hn) hhere (by omega)
      hrest hbefore
    refine ⟨own ++ following, hform, fun g hg => ?_⟩
    rcases List.mem_append.mp hg with hg | hg
    · rw [hown g hg]
      exact ⟨_, List.mem_cons_self, (MessageType.number_of_field? hf).symm⟩
    · obtain ⟨q, hq, hqg⟩ := hnumbers g hg
      exact ⟨q, List.mem_cons_of_mem _ hq, hqg⟩

/-- The induction is on the messages in the message. -/
theorem Message.Canonical.writesCanonical (hS : S.WellFormed) (hm : m.Canonical S) :
    m.WritesCanonical S := by
  induction hm with
  | @intro m shaped nested ih =>
    obtain ⟨t, fields⟩ := m
    intro hlength
    rw [Message.encode] at hlength ⊢
    have hm : (⟨t, [] ++ fields⟩ : Message).Canonical S := .intro shaped nested
    obtain ⟨numbers, hform, _⟩ := CanonicalForm.fields hS hm (fun p hp x hx =>
      ih p.1 p.2 (shaped.ascending.get?_eq_some_iff.mpr hp) x hx) hlength
    exact ⟨numbers, hform⟩

/-! ### Canonical bytes are those of a message -/

/-- The canonical message that these bytes are written for; its fields are among those listed. -/
structure Message.Writes (S : Schema) (t : TypeId) (bs : List UInt8) (fields : List Field)
    (m : Message) : Prop where
  canonical : m.Canonical S
  type : m.type = t
  bytes : m.encode S = bs
  listed : ∀ p ∈ m.fields, ∃ g ∈ fields, g.number = p.1

theorem Message.encode_eq (S : Schema) (m : Message) :
    m.encode S = encodeFields S (S.type m.type) m.fields := by
  cases m
  rfl

/-- A field comes to stand in front of the fields of a message, and its bytes in front of theirs. -/
theorem Message.Writes.insert {bs : List UInt8} (hm : m.Writes S t bs following)
    (hf : (S.type t).field? n = some f) (hv : f.Holds S v) (hcanonical : v.Canonical S)
    (hafter : ∀ p ∈ m.fields, n < p.1 ∧ (S.type t).excludes n p.1 = false) :
    (m.insert n v).Writes S t (encodeField S f v ++ bs) (f :: following) := by
  obtain ⟨hcanonical', rfl, rfl, hlisted⟩ := hm
  have hfields : (m.insert n v).fields = (n, v) :: m.fields :=
    FieldMap.insert_of_forall_gt v fun p hp => (hafter p hp).1
  refine ⟨?_, rfl, ?_, ?_⟩
  · refine hcanonical'.insert hf hv hcanonical fun group hgroup hn k hk hne => ?_
    -- another member would be one that the field excludes
    by_contra hset
    obtain ⟨w, hw⟩ := Option.ne_none_iff_exists'.mp hset
    have hexcludes : (S.type m.type).excludes n k :=
      MessageType.excludes_iff.mpr ⟨hne.symm, group, hgroup, hn, hk⟩
    have hnot := (hafter _ (FieldMap.mem_of_get? hw)).2
    rw [hexcludes] at hnot
    cases hnot
  · simp only [Message.encode_eq, hfields, encodeFields, Message.type_insert, hf]
  · rw [hfields, List.forall_mem_cons]
    refine ⟨⟨f, List.mem_cons_self, MessageType.number_of_field? hf⟩, fun p hp => ?_⟩
    obtain ⟨g, hg, hnumber⟩ := hlisted p hp
    exact ⟨g, List.mem_cons_of_mem f hg, hnumber⟩

/-- An element comes in front of those of the first field, and its bytes in front of all. -/
theorem Message.Writes.extend {bs : List UInt8} {items : List Value}
    (hm : m.Writes S t bs following) (hS : S.WellFormed) (hf : (S.type t).field? n = some f)
    (hrepeated : f.repeated) (hapart : f.kind.packable = false) (haccepts : f.kind.accepts S v)
    (hcanonical : v.Canonical S) (hitems : m.get? n = some (.list items))
    (hafter : ∀ p ∈ m.fields, n ≤ p.1) :
    (m.insert n (.list (v :: items))).Writes S t (encodeElement S f v ++ bs) (f :: following) := by
  obtain ⟨hm, rfl, rfl, hlisted⟩ := hm
  obtain ⟨rest, hfields⟩ : ∃ rest, m.fields = (n, .list items) :: rest := by
    have hmem := FieldMap.mem_of_get? hitems
    have hascending := hm.shaped.ascending
    revert hmem hascending hafter
    cases m.fields with
    | nil => simp
    | cons p rest =>
      intro hafter hmem hascending
      rcases List.mem_cons.mp hmem with rfl | hmem
      · exact ⟨rest, rfl⟩
      · have hlt : p.1 < n := (List.pairwise_cons.mp hascending).1 _ hmem
        have hle := hafter p List.mem_cons_self
        omega
  have hinserted : (m.insert n (.list (v :: items))).fields = (n, .list (v :: items)) :: rest := by
    rw [Message.insert, hfields, FieldMap.insert, if_neg (by omega), if_pos rfl]
  have helements : ∀ w ∈ items, f.kind.accepts S w ∧ w.Canonical S := by
    have hitems' : m.items n = items := by
      rw [Message.items, hitems]
      rfl
    rw [← hitems']
    exact hm.items hf hrepeated
  have hall : ∀ w ∈ v :: items, f.kind.accepts S w ∧ w.Canonical S :=
    List.forall_mem_cons.mpr ⟨⟨haccepts, hcanonical⟩, helements⟩
  refine ⟨?_, rfl, ?_, ?_⟩
  · exact hm.insertItems hS hf hrepeated (List.cons_ne_nil _ _) (fun w hw => (hall w hw).1)
      (.list fun w hw => (hall w hw).2)
  · simp only [Message.encode_eq, hinserted, hfields, encodeFields, Message.type_insert, hf]
    rw [encodeField_list hapart fun w hw => (hall w hw).1,
      encodeField_list hapart fun w hw => (helements w hw).1, List.flatMap_cons, List.append_assoc]
  · rw [hinserted, List.forall_mem_cons]
    rw [hfields, List.forall_mem_cons] at hlisted
    refine ⟨⟨f, List.mem_cons_self, MessageType.number_of_field? hf⟩, fun p hp => ?_⟩
    obtain ⟨g, hg, hnumber⟩ := hlisted.2 p hp
    exact ⟨g, List.mem_cons_of_mem f hg, hnumber⟩

/-- One more value with a record of its own in front. -/
theorem Message.Writes.element {bs : List UInt8} (hm : m.Writes S t bs following)
    (hS : S.WellFormed) (hf : (S.type t).field? n = some f)
    (hapart : f.repeated → f.kind.packable = false)
    (hpresence : f.repeated = false → f.tracksPresence = false → v.isDefault = false)
    (haccepts : f.kind.accepts S v) (hcanonical : v.Canonical S)
    (hbefore : (S.type t).Precedes f following) :
    ∃ m : Message, m.Writes S t (encodeElement S f v ++ bs) (f :: following) := by
  have hnumber := MessageType.number_of_field? hf
  have hlisted (p : Nat × Value) (hp : p ∈ m.fields) :
      (p.1 = n ∧ f.repeated) ∨ (n < p.1 ∧ (S.type t).excludes n p.1 = false) := by
    obtain ⟨g, hg, hgp⟩ := hm.listed p hp
    rcases hbefore g hg with ⟨rfl, hrepeated, _⟩ | hlater
    · exact .inl ⟨by rw [← hgp, hnumber], hrepeated⟩
    · rw [hnumber, hgp] at hlater
      exact .inr hlater
  cases hget : m.get? n with
  | none =>
    have hafter (p : Nat × Value) (hp : p ∈ m.fields) :
        n < p.1 ∧ (S.type t).excludes n p.1 = false := by
      rcases hlisted p hp with ⟨heq, _⟩ | hlater
      · exact absurd heq (FieldMap.get?_eq_none_iff.mp hget p hp)
      · exact hlater
    by_cases hrepeated : f.repeated
    · have hsingle := hm.insert hf (v := .list [v])
        (.many hrepeated (by simp) (by simpa using haccepts)) (.list (by simpa using hcanonical))
        hafter
      rw [encodeField_list (hapart hrepeated) (by simpa using haccepts), List.flatMap_cons,
        List.flatMap_nil, List.append_nil] at hsingle
      exact ⟨_, hsingle⟩
    · rw [Bool.not_eq_true] at hrepeated
      have hsingle := hm.insert hf (.one hrepeated haccepts (hpresence hrepeated)) hcanonical hafter
      rw [encodeField_of_singular haccepts (hpresence hrepeated)] at hsingle
      exact ⟨_, hsingle⟩
  | some w =>
    have hrepeated : f.repeated := by
      rcases hlisted _ (FieldMap.mem_of_get? hget) with ⟨_, hrepeated⟩ | ⟨hlt, _⟩
      · exact hrepeated
      · exact absurd hlt (Nat.lt_irrefl n)
    have hf' : (S.type m.type).field? n = some f := hm.type ▸ hf
    cases hm.canonical.holds hf' hget with
    | one hsingular => rw [hrepeated] at hsingular; cases hsingular
    | @many items =>
      refine ⟨_, hm.extend hS hf hrepeated (hapart hrepeated) haccepts hcanonical hget
        fun p hp => ?_⟩
      rcases hlisted p hp with ⟨heq, _⟩ | ⟨hlt, _⟩
      · omega
      · omega

/-- The induction is on the canonical form; each record adds to the message of those behind it. -/
theorem CanonicalForm.exists_message {bs : List UInt8} {fields : List Field} (hS : S.WellFormed)
    (h : CanonicalForm S t bs fields) (ht : t < S.types.size) :
    ∃ m : Message, m.Writes S t bs fields := by
  induction h with
  | @nil t =>
    exact ⟨Message.empty t, .empty ht, rfl, rfl, by simp [Message.empty]⟩
  | @value t n f s v tag value rest following hf hkind hapart hpresence htag hvalue _ hbefore ih =>
    obtain ⟨m, hm⟩ := ih ht
    obtain ⟨hmin, hmax⟩ := legal_of_field hS hf
    have haccepts : s.accepts v := hvalue.toForm.accepts
    have helement : tag ++ value = encodeElement S f v := by
      rw [encodeElement_scalar hkind, Scalar.writeTagged, if_pos haccepts, hvalue.eq_write,
        (shortest_tagForm_iff hmin hmax).mp htag, MessageType.number_of_field? hf]
    rw [helement]
    exact hm.element hS hf (by rwa [hkind]) hpresence (by rwa [hkind]) (.of_scalar haccepts) hbefore
  | @packed t n f s vs tag value region rest following hf hkind hrepeated hpackable hvs htag hvalue
      hrun _ hbefore ih =>
    obtain ⟨m, hm⟩ := ih ht
    obtain ⟨hmin, hmax⟩ := legal_of_field hS hf
    obtain ⟨haccepts, rfl⟩ := hrun.eq_write
    have hnumber := MessageType.number_of_field? hf
    have hlist : tag ++ value = encodeField S f (.list vs) := by
      have hempty : vs.isEmpty = false := by simpa using hvs
      simp only [encodeField, hkind, Scalar.writeList, hempty, hpackable, Scalar.writePacked,
        List.filter_eq_self.mpr haccepts, writeDelimited, Bool.false_eq_true, ↓reduceIte]
      rw [(shortest_tagForm_iff hmin hmax).mp htag, eq_delimited_of_shortest hvalue, hnumber]
    rw [hlist]
    have hholds : f.Holds S (.list vs) := .many hrepeated hvs (by rwa [hkind])
    refine ⟨_, hm.insert hf hholds (.list fun v hv => .of_scalar (haccepts v hv)) fun p hp => ?_⟩
    obtain ⟨g, hg, hgp⟩ := hm.listed p hp
    rcases hbefore g hg with ⟨_, _, hapart⟩ | hlater
    · rw [hkind, Kind.packable, hpackable] at hapart
      cases hapart
    · rwa [hnumber, hgp] at hlater
  | @body t u n f tag value bytes rest inner following hf hkind htag hvalue _ _ hbefore ihbody ih =>
    obtain ⟨m, hm⟩ := ih ht
    obtain ⟨hmin, hmax⟩ := legal_of_field hS hf
    have hu := (hS.type t).references f (MessageType.mem_of_field? hf) u hkind
    obtain ⟨x, hx⟩ := ihbody hu
    have helement : tag ++ value = encodeElement S f (.message x) := by
      rw [encodeElement_message hkind, writeDelimited, hx.bytes, eq_delimited_of_shortest hvalue,
        (shortest_tagForm_iff hmin hmax).mp htag, MessageType.number_of_field? hf]
    rw [helement]
    exact hm.element hS hf (by simp [hkind, Kind.packable]) (fun _ _ => rfl)
      (by simp [hkind, Kind.accepts, hx.type]) (.message hx.canonical) hbefore

/-! ### Other names -/

theorem MessageType.Precedes.alike {S' : Schema} (h : S.Alike S')
    (hbefore : (S.type t).Precedes f following) : (S'.type t).Precedes f following := by
  simpa only [Precedes, excludes, h.oneofs] using hbefore

/-- Bytes are canonical whatever the types are called. -/
theorem CanonicalForm.alike {S' : Schema} {bs : List UInt8} {fields : List Field}
    (h : S.Alike S') (hform : CanonicalForm S t bs fields) : CanonicalForm S' t bs fields := by
  induction hform with
  | nil => exact .nil
  | value hf hkind hapart hpresence htag hvalue _ hbefore ih =>
    exact .value (h.field? _ _ ▸ hf) hkind hapart hpresence htag hvalue ih (hbefore.alike h)
  | packed hf hkind hrepeated hpackable hvs htag hvalue hrun _ hbefore ih =>
    exact .packed (h.field? _ _ ▸ hf) hkind hrepeated hpackable hvs htag hvalue hrun ih
      (hbefore.alike h)
  | body hf hkind htag hvalue _ _ hbefore ihbody ih =>
    exact .body (h.field? _ _ ▸ hf) hkind htag hvalue ihbody ih (hbefore.alike h)

theorem encodeElement_alike {S' : Schema} (haccepts : f.kind.accepts S v)
    (hsame : ∀ x ∈ v.messages, x.encode S' = x.encode S) :
    encodeElement S' f v = encodeElement S f v := by
  cases hkind : f.kind with
  | scalar s => rw [encodeElement_scalar hkind, encodeElement_scalar hkind]
  | message u =>
    obtain ⟨x, rfl⟩ := Field.exists_message_of_accepts hkind haccepts
    rw [encodeElement_message hkind, encodeElement_message hkind,
      hsame x (List.mem_singleton.mpr rfl)]

theorem encodeField_alike {S' : Schema} (hS : S.WellFormed) (hf : f ∈ (S.type t).fields)
    (hcanonical : v.Canonical S) (hholds : f.Holds S v)
    (hsame : ∀ x ∈ v.messages, x.encode S' = x.encode S) :
    encodeField S' f v = encodeField S f v := by
  cases hholds with
  | one _ haccepts hpresence =>
    have haccepts' := hcanonical.accepts_of_wellFormed hS hf haccepts S'
    rw [encodeField_of_singular haccepts' hpresence, encodeField_of_singular haccepts hpresence,
      encodeElement_alike haccepts hsame]
  | @many items _ _ haccepts =>
    by_cases hpackable : f.kind.packable
    · cases hkind : f.kind with
      | scalar s => simp only [encodeField, hkind]
      | message u =>
        rw [hkind] at hpackable
        cases hpackable
    · have hapart : f.kind.packable = false := by simpa using hpackable
      have haccepts' : ∀ v ∈ items, f.kind.accepts S' v := fun v hv =>
        (hcanonical.of_mem_list (haccepts v hv) hv).accepts_of_wellFormed hS hf (haccepts v hv) S'
      rw [encodeField_list hapart haccepts', encodeField_list hapart haccepts]
      refine List.flatMap_congr fun v hv => encodeElement_alike (haccepts v hv) fun x hx => ?_
      exact hsame x (Value.mem_messages_list (haccepts v hv) hv hx)

theorem encodeFields_congr {S' : Schema} {T T' : MessageType} {fields : List (Nat × Value)}
    (hfield : ∀ n, T.field? n = T'.field? n)
    (h : ∀ p ∈ fields, ∀ f, T.field? p.1 = some f → encodeField S' f p.2 = encodeField S f p.2) :
    encodeFields S' T' fields = encodeFields S T fields := by
  induction fields with
  | nil => rfl
  | cons p fields ih =>
    obtain ⟨n, v⟩ := p
    obtain ⟨hhere, hrest⟩ := List.forall_mem_cons.mp h
    rw [encodeFields, encodeFields, ih hrest, ← hfield]
    cases hf : T.field? n with
    | none => rfl
    | some f => exact congrArg (· ++ encodeFields S T fields) (hhere f hf)

/-- The bytes of a canonical message are the same under other names, if the names here tell the
types. The induction is on the messages in the message. -/
theorem Message.Canonical.encode_alike {S' : Schema} (hS : S.WellFormed) (h : S.Alike S')
    (hm : m.Canonical S) : m.encode S' = m.encode S := by
  induction hm with
  | @intro m shaped nested ih =>
    rw [Message.encode_eq, Message.encode_eq]
    refine encodeFields_congr (h.field? m.type) fun (n, v) hp f hf => ?_
    have hget : m.get? n = some v := shaped.ascending.get?_eq_some_iff.mpr hp
    obtain ⟨f', hf', hholds⟩ := shaped.stored n v hget
    rw [hf] at hf'
    cases hf'
    exact encodeField_alike hS (MessageType.mem_of_field? hf) (nested n v hget) hholds
      (ih n v hget)

/-! ### Decoding and encoding -/

/-- The bytes of a canonical message give the message back where the limits admit them. -/
theorem Message.Canonical.decode_encode_of_le (hS : S.WellFormed) (hm : m.Canonical S)
    {limits : Limits} (hlength : (m.encode S).length < 2 ^ 64)
    (hsize : (m.encode S).length ≤ limits.size) (hheight : m.height ≤ limits.recursion) :
    Message.decode S m.type limits (m.encode S) = .ok m := by
  have hmerged := (hm.carried hS limits.nesting hlength).merge hheight []
  rw [List.append_nil, merge_nil] at hmerged
  rw [Message.decode_eq_ok_iff, hmerged]
  exact ⟨hsize, rfl, rfl⟩

/-- Canonical bytes that decode give a message whose bytes they are. -/
theorem CanonicalForm.encode_of_decode {bs : List UInt8} {fields : List Field} {limits : Limits}
    (hS : S.WellFormed) (hform : CanonicalForm S t bs fields) (ht : t < S.types.size)
    (hlength : bs.length < 2 ^ 64) (h : Message.decode S t limits bs = .ok m) :
    m.encode S = bs := by
  obtain ⟨x, hx, rfl, rfl, _⟩ := hform.exists_message hS ht
  obtain ⟨_, herror, rfl⟩ := Message.decode_eq_ok_iff.mp h
  have hcarried := hx.carried hS limits.nesting hlength
  rw [Carries] at hcarried
  split at hcarried
  · have hmerged := hcarried []
    rw [List.append_nil, merge_nil] at hmerged
    rw [hmerged]
  · have hfails := hcarried []
    rw [List.append_nil, herror] at hfails
    cases hfails

/-- Decoding and encoding again brings bytes to their canonical form: what comes out decodes to the
same message and is not changed any more, and just the canonical bytes are not changed at all. -/
theorem encode_decode_normalises {limits : Limits} {bs : List UInt8}
    (hS : ∀ t, (S.type t).WellFormed S.types.size) (ht : t < S.types.size)
    (hlimits : limits.size < UInt64.size) (h : Message.decode S t limits bs = .ok m) :
    m.height ≤ limits.recursion ∧
      ((m.encode S).length ≤ limits.size →
        Message.decode S t limits (m.encode S) = .ok m ∧
          Message.encode S <$> Message.decode S t limits (m.encode S) = .ok (m.encode S)) ∧
      (m.encode S = bs ↔ ∃ fields, CanonicalForm S t bs fields) := by
  simp only [UInt64.size] at hlimits
  -- the message is canonical under names that tell the types, and has the same bytes under them
  obtain ⟨R, hR, halike⟩ := Schema.exists_alike hS
  have hdecode := halike.decode_of_eq_ok h
  have hm := Message.Canonical.decode hR (halike.size ▸ ht) hdecode
  have hencode : m.encode S = m.encode R := hm.encode_alike hR halike.symm
  have hheight := height_le_of_decode h
  have hsize := (Message.decode_eq_ok_iff.mp h).1
  obtain rfl := type_decode h
  rw [hencode]
  refine ⟨hheight, fun hfits => ?_, fun heq => ?_, ?_⟩
  · have hround := hm.decode_encode_of_le hR (by omega) hfits hheight
    rw [halike.symm.decode_of_eq_ok hround]
    exact ⟨rfl, congrArg Except.ok hencode⟩
  · obtain ⟨fields, hform⟩ := hm.writesCanonical hR (by rw [heq]; omega)
    rw [heq] at hform
    exact ⟨fields, hform.alike halike.symm⟩
  · rintro ⟨fields, hform⟩
    exact (hform.alike halike).encode_of_decode hR (halike.size ▸ ht) (by omega) hdecode

section

open Vision

/-- The name behind the metadata and with a length in two bytes: decoding and encoding brings both
in order, and then changes nothing more. -/
theorem disorderedOperation_normalised :
    (¬ ∃ fields, CanonicalForm schema TypeName.operation.id
        [18, 3, 10, 1, 116, 10, 129, 0, 120] fields) ∧
      Message.encode schema <$> Message.decode schema TypeName.operation.id Limits.default
          [10, 1, 120, 18, 3, 10, 1, 116] = .ok [10, 1, 120, 18, 3, 10, 1, 116] ∧
      ∃ fields,
        CanonicalForm schema TypeName.operation.id [10, 1, 120, 18, 3, 10, 1, 116] fields := by
  have hencode : Message.encode schema ⟨TypeName.operation.id, [(1, .string "x"),
      (2, .message ⟨TypeName.any.id, [(1, .string "t")]⟩)]⟩ = [10, 1, 120, 18, 3, 10, 1, 116] := by
    cbv
  have hdecode : Message.decode schema TypeName.operation.id Limits.default
      [18, 3, 10, 1, 116, 10, 129, 0, 120] = .ok ⟨TypeName.operation.id, [(1, .string "x"),
        (2, .message ⟨TypeName.any.id, [(1, .string "t")]⟩)]⟩ := by
    cbv
  obtain ⟨_, hagain, hfixed⟩ := encode_decode_normalises schema_wellFormed.type
    (id_lt_size .operation) (by decide) hdecode
  rw [hencode] at hagain hfixed
  obtain ⟨hdecode', hencode'⟩ := hagain (by decide)
  refine ⟨?_, hencode', ?_⟩
  · rw [← hfixed]
    decide
  · obtain ⟨_, _, hfixed'⟩ := encode_decode_normalises schema_wellFormed.type
      (id_lt_size .operation) (by decide) hdecode'
    exact hfixed'.mp hencode

end

end Protowire
