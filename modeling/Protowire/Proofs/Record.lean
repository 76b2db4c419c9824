import Protowire.Proofs.Wire.Stable
import Protowire.Record

/-!
The forms of one record, and what reading a record does with input that goes on behind it. The body
of a nested message is only delimited here; what it has to be is the matter of the message that it
is read into.
-/

namespace Protowire

open Reader Wire

theorem Scalar.wire_of_packable {s : Scalar} (h : s.packable) : s.wire ≠ .lengthDelimited := by
  cases s <;> simp_all [packable, wire]

theorem Scalar.wire_ne_endGroup (s : Scalar) : s.wire ≠ .endGroup := by
  cases s <;> simp [wire]

namespace Record

/-- The forms of a record of a message of type `T` in which `room` more messages and groups may be
opened. -/
inductive Form (T : MessageType) (room : Nat) : List UInt8 → Record → Prop
  | unknown {number : Nat} {wire : WireType} {tag value : List UInt8}
    (hfield : T.field? number = none) (htag : TagForm tag (number, wire))
    (hvalue : ValueForm room number wire value) : Form T room (tag ++ value) .unknown
  | value {number : Nat} {f : Field} {s : Scalar} {v : Value} {tag value : List UInt8}
    (hfield : T.field? number = some f) (hkind : f.kind = .scalar s)
    (htag : TagForm tag (number, s.wire)) (hvalue : s.Form value v) :
    Form T room (tag ++ value) (.value f v)
  | packed {number : Nat} {f : Field} {s : Scalar} {vs : List Value} {tag value region : List UInt8}
    (hfield : T.field? number = some f) (hkind : f.kind = .scalar s) (hrepeated : f.repeated)
    (hpackable : s.packable) (htag : TagForm tag (number, .lengthDelimited))
    (hvalue : DelimitedForm value region) (hrun : s.RunForm region vs) :
    Form T room (tag ++ value) (.packed f vs)
  | body {number : Nat} {f : Field} {t : TypeId} {tag value bytes : List UInt8}
    (hfield : T.field? number = some f) (hkind : f.kind = .message t) (hroom : 0 < room)
    (htag : TagForm tag (number, .lengthDelimited)) (hvalue : DelimitedForm value bytes) :
    Form T room (tag ++ value) (.body f t bytes)

/-- The forms of some records, one behind the other. -/
inductive Forms (T : MessageType) (room : Nat) : List UInt8 → List Record → Prop
  | nil : Forms T room [] []
  | cons {form rest : List UInt8} {r : Record} {rs : List Record} (hform : Form T room form r)
    (hrest : Forms T room rest rs) : Forms T room (form ++ rest) (r :: rs)

section

variable {T : MessageType} {nesting : Nesting} {f : Field} {number : Nat} {tag : List UInt8}

theorem form_of_readNested {bs bytes rest : List UInt8} {inner : Nesting}
    (h : readNested nesting bs = .ok (bytes, inner) rest) :
    0 < nesting.room ∧ ∃ value, DelimitedForm value bytes ∧ bs = value ++ rest := by
  simp only [readNested] at h
  split at h
  · cases h
  · rename_i hlimit
    obtain ⟨value, ⟨_, hvalue, heq⟩, rfl⟩ := (reads_readBytes.map _).form h
    cases heq
    refine ⟨?_, value, hvalue, rfl⟩
    rw [Nesting.room]
    omega

theorem form_of_readField_scalar {s : Scalar} {wire : WireType} {bs rest : List UInt8} {r : Record}
    (hfield : T.field? number = some f) (hkind : f.kind = .scalar s)
    (htag : TagForm tag (number, wire)) (h : readField T nesting f wire bs = .ok r rest) :
    ∃ value, Form T nesting.room (tag ++ value) r ∧ bs = value ++ rest := by
  simp only [readField, hkind] at h
  split at h
  · rename_i hpacked
    simp only [Bool.and_eq_true, decide_eq_true_eq] at hpacked
    obtain ⟨⟨hrepeated, hpackable⟩, rfl⟩ := hpacked
    split at h
    · cases h
    · rename_i region _ hb
      obtain ⟨value, hvalue, rfl⟩ := reads_readBytes.form hb
      split at h
      · rename_i vs hvs
        have hrun := Scalar.readAll_eq_ok_iff.mp hvs
        cases h
        exact ⟨value, .packed hfield hkind hrepeated hpackable htag hvalue hrun, rfl⟩
      · cases h
  · split at h
    · rename_i hwire
      subst hwire
      obtain ⟨value, ⟨v, hvalue, rfl⟩, rfl⟩ := (s.reads_read.map _).form h
      exact ⟨value, .value hfield hkind htag hvalue, rfl⟩
    · cases h

theorem form_of_readField_message {t : TypeId} {wire : WireType} {bs rest : List UInt8}
    {r : Record} (hfield : T.field? number = some f) (hkind : f.kind = .message t)
    (htag : TagForm tag (number, wire)) (h : readField T nesting f wire bs = .ok r rest) :
    ∃ value, Form T nesting.room (tag ++ value) r ∧ bs = value ++ rest := by
  simp only [readField, hkind] at h
  split at h
  · rename_i hwire
    subst hwire
    simp only [Functor.map, EStateM.map] at h
    split at h
    · rename_i hn
      cases h
      obtain ⟨hroom, value, hvalue, rfl⟩ := form_of_readNested hn
      exact ⟨value, .body hfield hkind hroom htag hvalue, rfl⟩
    · cases h
  · cases h

theorem form_of_readField {wire : WireType} {bs rest : List UInt8} {r : Record}
    (hfield : T.field? number = some f) (htag : TagForm tag (number, wire))
    (h : readField T nesting f wire bs = .ok r rest) :
    ∃ value, Form T nesting.room (tag ++ value) r ∧ bs = value ++ rest := by
  cases hkind : f.kind with
  | scalar s => exact form_of_readField_scalar hfield hkind htag h
  | message t => exact form_of_readField_message hfield hkind htag h

theorem read_declared {wire : WireType} (hfield : T.field? number = some f)
    (hend : wire ≠ .endGroup) (htag : TagForm tag (number, wire)) (rest : List UInt8) :
    read T nesting (tag ++ rest) = readField T nesting f wire rest := by
  simp only [read, reads_readTag.ok htag, hend, hfield, ↓reduceIte]

theorem read_undeclared {wire : WireType} (hfield : T.field? number = none)
    (hend : wire ≠ .endGroup) (htag : TagForm tag (number, wire)) (rest : List UInt8) :
    read T nesting (tag ++ rest) =
      ((fun _ => unknown) <$> skipField nesting number wire) rest := by
  simp only [read, reads_readTag.ok htag, hend, hfield, ↓reduceIte]

theorem readField_body {t : TypeId} {value bytes : List UInt8} (hkind : f.kind = .message t)
    (hroom : 0 < nesting.room) (hvalue : DelimitedForm value bytes) (rest : List UInt8) :
    readField T nesting f .lengthDelimited (value ++ rest) = .ok (.body f t bytes) rest := by
  have hlimit : ¬nesting.limit ≤ nesting.depth := by
    rw [Nesting.room] at hroom
    omega
  simp only [readField, hkind, readNested, Functor.map, EStateM.map, hlimit, ↓reduceIte,
    reads_readBytes.ok hvalue]

theorem readField_packed {s : Scalar} {vs : List Value} {value region : List UInt8}
    (hkind : f.kind = .scalar s) (hrepeated : f.repeated) (hpackable : s.packable)
    (hvalue : DelimitedForm value region) (hrun : s.RunForm region vs) (rest : List UInt8) :
    readField T nesting f .lengthDelimited (value ++ rest) = .ok (.packed f vs) rest := by
  simp only [readField, hkind, hrepeated, hpackable, Bool.and_self, decide_true, ↓reduceIte,
    reads_readBytes.ok hvalue, Scalar.readAll_eq_ok_iff.mpr hrun]

theorem readField_value {s : Scalar} {v : Value} {value : List UInt8}
    (hkind : f.kind = .scalar s) (hvalue : s.Form value v) (rest : List UInt8) :
    readField T nesting f s.wire (value ++ rest) = .ok (.value f v) rest := by
  -- what can be packed is not itself delimited, so the two ways of reading do not meet
  have hpacked : (f.repeated && s.packable && decide (s.wire = .lengthDelimited)) = false := by
    by_cases h : s.packable
    · simp [Scalar.wire_of_packable h]
    · simp [h]
  simp only [readField, hkind, hpacked, Bool.false_eq_true, ↓reduceIte]
  exact (s.reads_read.map _).ok ⟨v, hvalue, rfl⟩ rest

theorem Form.read {form : List UInt8} {r : Record} (h : Form T nesting.room form r)
    (rest : List UInt8) : read T nesting (form ++ rest) = .ok r rest := by
  cases h with
  | @unknown number wire tag value hfield htag hvalue =>
    have hend : wire ≠ .endGroup := by
      rintro rfl
      exact hvalue
    rw [List.append_assoc, read_undeclared hfield hend htag]
    exact ((reads_skipField nesting number wire).map _).ok ⟨(), hvalue, rfl⟩ rest
  | @value number f s v tag value hfield hkind htag hvalue =>
    rw [List.append_assoc, read_declared hfield s.wire_ne_endGroup htag]
    exact readField_value hkind hvalue rest
  | packed hfield hkind hrepeated hpackable htag hvalue hrun =>
    rw [List.append_assoc, read_declared hfield (by decide) htag]
    exact readField_packed hkind hrepeated hpackable hvalue hrun rest
  | body hfield hkind hroom htag hvalue =>
    rw [List.append_assoc, read_declared hfield (by decide) htag]
    exact readField_body hkind hroom hvalue rest

end

theorem reads_read (T : MessageType) (nesting : Nesting) :
    Reads (read T nesting) (Form T nesting.room) := by
  intro bs r rest
  constructor
  · intro h
    simp only [read] at h
    split at h
    · cases h
    · rename_i number wire bs' ht
      obtain ⟨tag, htag, rfl⟩ := reads_readTag.form ht
      split at h
      · cases h
      · split at h
        · rename_i f hfield
          obtain ⟨value, hform, rfl⟩ := form_of_readField hfield htag h
          exact ⟨tag ++ value, hform, by simp⟩
        · rename_i hfield
          obtain ⟨value, ⟨_, hvalue, rfl⟩, rfl⟩ := ((reads_skipField _ _ _).map _).form h
          exact ⟨tag ++ value, .unknown hfield htag hvalue, by simp⟩
  · rintro ⟨form, hform, rfl⟩
    exact hform.read rest

theorem stable_readField (T : MessageType) (nesting : Nesting) (f : Field) (wire : WireType) :
    Stable DecodeError.wantsMore (readField T nesting f wire) := by
  intro bs e rest more h he
  cases hk : f.kind with
  | scalar s =>
    simp only [readField, hk] at h ⊢
    split at h
    · rename_i hpacked
      rw [if_pos hpacked]
      split at h
      · rename_i hb
        cases h
        rw [stable_readBytes _ _ _ more hb he]
      · rename_i hb
        rw [reads_readBytes.append hb more]
        split at h
        · cases h
        · rename_i hvs
          cases h
          simp only [hvs]
    · rename_i hpacked
      rw [if_neg hpacked]
      split at h
      · rename_i hwire
        rw [if_pos hwire]
        exact s.stable_read.map _ _ _ _ more h he
      · rename_i hwire
        cases h
        rw [if_neg hwire]
  | message t =>
    simp only [readField, hk] at h ⊢
    split at h
    · rename_i hwire
      rw [if_pos hwire]
      exact (stable_readNested nesting).map _ _ _ _ more h he
    · rename_i hwire
      cases h
      rw [if_neg hwire]

theorem stable_read (T : MessageType) (nesting : Nesting) :
    Stable DecodeError.wantsMore (read T nesting) := by
  intro bs e rest more h he
  simp only [read] at h ⊢
  split at h
  · rename_i ht
    cases h
    rw [stable_readTag _ _ _ more ht he]
  · rename_i ht
    rw [reads_readTag.append ht more]
    split at h
    · rename_i hend
      cases h
      simp only [hend, ↓reduceIte]
    · rename_i hend
      simp only [hend, ↓reduceIte]
      split at h
      · exact stable_readField _ _ _ _ _ _ _ more h he
      · exact (stable_skipField _ _ _).map _ _ _ _ more h he

/-- The declared field that a record is about. -/
def field? : Record → Option Field
  | .unknown => none
  | .value f _ | .packed f _ | .body f _ _ => some f

end Record

/-! ### What a tag alone tells -/

/-- What is read as a scalar value can be skipped as one of its wire type. -/
theorem Scalar.Form.plain {s : Scalar} {form : List UInt8} {v : Value} (h : s.Form form v) :
    PlainForm s.wire form := by
  cases s <;> simp only [Scalar.Form] at h <;> obtain ⟨x, h⟩ := h
  case fixed32 | sfixed32 | float | fixed64 | sfixed64 | double => exact x
  all_goals exact ⟨_, h.1⟩

namespace Wire

/-- A complete record with number `n`, whatever a type declares: a tag and a value of the tag's wire
type, in which groups nest at most `room` deep. -/
def RecordForm (room n : Nat) (form : List UInt8) : Prop :=
  ∃ tag wire value, TagForm tag (n, wire) ∧ ValueForm room n wire value ∧ form = tag ++ value

variable {room room' n n' : Nat} {form form' rest rest' : List UInt8}

theorem TagForm.unique {tag tag' : List UInt8} {t t' : Nat × WireType} (h : TagForm tag t)
    (h' : TagForm tag' t') (heq : tag ++ rest = tag' ++ rest') : t = t' ∧ rest = rest' := by
  have hread := reads_readTag.ok h rest
  rw [heq, reads_readTag.ok h' rest'] at hread
  cases hread
  exact ⟨rfl, rfl⟩

/-- At most one complete record stands at the front of an input. -/
theorem RecordForm.unique (h : RecordForm room n form) (h' : RecordForm room' n' form')
    (heq : form ++ rest = form' ++ rest') : n = n' ∧ form = form' ∧ rest = rest' := by
  obtain ⟨tag, wire, value, htag, hvalue, rfl⟩ := h
  obtain ⟨tag', wire', value', htag', hvalue', rfl⟩ := h'
  have htags := heq
  rw [List.append_assoc, List.append_assoc] at htags
  obtain ⟨hsame, hvalues⟩ := htag.unique htag' htags
  cases hsame
  obtain ⟨_, rfl⟩ := hvalue.unique hvalue' hvalues
  exact ⟨rfl, List.append_cancel_right heq, rfl⟩

theorem RecordForm.run (h : RecordForm room n form) (hrest : RunForm room rest) :
    RunForm room (form ++ rest) := by
  obtain ⟨tag, wire, value, htag, hvalue, rfl⟩ := h
  rw [ValueForm] at hvalue
  split at hvalue
  · rename_i hwire
    subst hwire
    obtain ⟨hroom, body, close, hbody, hclose, rfl⟩ := hvalue
    obtain ⟨inner, rfl⟩ : ∃ inner, room = inner + 1 := ⟨room - 1, by omega⟩
    simpa using RunForm.group htag hbody hclose hrest
  · simpa using RunForm.plain htag hvalue hrest

end Wire

namespace Record

variable {T : MessageType} {room n : Nat} {form rest rest' : List UInt8} {r : Record}

theorem Form.body_field {f : Field} {t : TypeId} {bytes : List UInt8}
    (h : Form T room form (.body f t bytes)) :
    ∃ n, T.field? n = some f ∧ f.kind = .message t ∧ 0 < room := by
  cases h with
  | body hfield hkind hroom => exact ⟨_, hfield, hkind, hroom⟩

/-- What reads as a record is a complete one, of the field with its number. -/
theorem Form.complete (h : Form T room form r) :
    ∃ n, RecordForm room n form ∧ r.field? = T.field? n := by
  cases h with
  | @unknown number wire tag value hfield htag hvalue =>
    exact ⟨number, ⟨tag, wire, value, htag, hvalue, rfl⟩, hfield.symm⟩
  | @value number f s v tag value hfield _ htag hvalue =>
    exact ⟨number, ⟨tag, _, value, htag, hvalue.plain.value room number, rfl⟩, hfield.symm⟩
  | @packed number f s vs tag value region hfield _ _ _ htag hvalue =>
    have hplain : PlainForm .lengthDelimited value := ⟨region, hvalue⟩
    exact ⟨number, ⟨tag, _, value, htag, hplain.value room number, rfl⟩, hfield.symm⟩
  | @body number f t tag value bytes hfield _ _ htag hvalue =>
    have hplain : PlainForm .lengthDelimited value := ⟨bytes, hvalue⟩
    exact ⟨number, ⟨tag, _, value, htag, hplain.value room number, rfl⟩, hfield.symm⟩

/-- Of a complete record, reading takes all or fails. -/
theorem form_of_read_complete {nesting : Nesting} (hform : RecordForm room n form)
    (h : read T nesting (form ++ rest) = .ok r rest') :
    rest' = rest ∧ Form T nesting.room form r ∧ r.field? = T.field? n := by
  obtain ⟨form', hread, heq⟩ := (reads_read T nesting).form h
  obtain ⟨n', hform', hfield⟩ := hread.complete
  obtain ⟨rfl, rfl, rfl⟩ := hform.unique hform' heq
  exact ⟨rfl, hread, hfield⟩

end Record

end Protowire
