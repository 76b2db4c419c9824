import Protowire.Proofs.Message.Normal
import Protowire.Proofs.Message.Truncated

/-!
The records of an encoding. Whatever a message holds, what is written of it splits into complete
records, those of one field behind those of the other, and each bears the number of the field that
it was written for. So the records of some fields among the bytes of a message are those that are
written of these fields.
-/

namespace Protowire

open Reader Wire

/-- As long as lengths fit in 64 bits, the bytes split into complete records whose numbers all have
the property. -/
def RecordsOf (P : Nat → Prop) (bs : List UInt8) : Prop :=
  bs.length < 2 ^ 64 → ∃ rs, SplitsInto bs rs ∧ ∀ r ∈ rs, P r.1

variable {S : Schema} {T : MessageType} {types room n : Nat} {f : Field} {v : Value}
  {P Q : Nat → Prop} {bs bs' form : List UInt8} {rs rs' : List (Nat × List UInt8)}

theorem SplitsInto.append (h : SplitsInto bs rs) (h' : SplitsInto bs' rs') :
    SplitsInto (bs ++ bs') (rs ++ rs') :=
  ⟨List.forall_mem_append.mpr ⟨h.complete, h'.complete⟩, by
    rw [recordBytes_append, h.bytes, h'.bytes]⟩

theorem Wire.RecordForm.splitsInto (h : RecordForm room n form) : SplitsInto form [(n, form)] := by
  simpa using SplitsInto.nil.cons h

namespace RecordsOf

theorem nil (P : Nat → Prop) : RecordsOf P [] := fun _ => ⟨[], .nil, List.forall_mem_nil _⟩

theorem append (h : RecordsOf P bs) (h' : RecordsOf P bs') : RecordsOf P (bs ++ bs') := by
  intro hlength
  rw [List.length_append] at hlength
  obtain ⟨rs, hsplit, hrs⟩ := h (by omega)
  obtain ⟨rs', hsplit', hrs'⟩ := h' (by omega)
  exact ⟨rs ++ rs', hsplit.append hsplit', List.forall_mem_append.mpr ⟨hrs, hrs'⟩⟩

theorem flatMap {α : Type} {g : α → List UInt8} (h : ∀ a, RecordsOf P (g a)) (items : List α) :
    RecordsOf P (items.flatMap g) := by
  induction items with
  | nil => exact .nil P
  | cons a items ih => exact (h a).append ih

theorem mono (h : RecordsOf P bs) (hPQ : ∀ n, P n → Q n) : RecordsOf Q bs := by
  intro hlength
  obtain ⟨rs, hsplit, hrs⟩ := h hlength
  exact ⟨rs, hsplit, fun r hr => hPQ _ (hrs r hr)⟩

end RecordsOf

/-! ### What is written of a field -/

section

variable (hT : T.WellFormed types) (hf : T.field? n = some f)

include hT hf

theorem recordForm_writeTagged {s : Scalar} (hv : s.accepts v)
    (hlength : (s.writeTagged n v).length < 2 ^ 64) : RecordForm room n (s.writeTagged n v) := by
  rw [Scalar.writeTagged, if_pos hv] at hlength ⊢
  rw [List.length_append] at hlength
  have hvalue : s.Form (s.write v) v := Scalar.form_write hv (by omega)
  exact ⟨_, s.wire, _, tagForm_of_field hT hf s.wire, hvalue.plain.value room n, rfl⟩

theorem recordForm_writeDelimited (hlength : (writeDelimited n bs).length < 2 ^ 64) :
    RecordForm room n (writeDelimited n bs) := by
  obtain ⟨tag, value, htag, hvalue, hform⟩ := bodyForm_writeDelimited hT hf hlength
  have hplain : PlainForm .lengthDelimited value := ⟨bs, hvalue⟩
  exact ⟨tag, .lengthDelimited, value, htag, hplain.value room n, hform⟩

/-- A value under a tag of its own is one record. -/
theorem recordForm_encodeElement (haccepts : f.kind.accepts S v)
    (hlength : (encodeElement S f v).length < 2 ^ 64) :
    RecordForm room n (encodeElement S f v) := by
  obtain rfl := MessageType.number_of_field? hf
  cases hkind : f.kind with
  | scalar s =>
    rw [hkind] at haccepts
    rw [encodeElement_scalar hkind] at hlength ⊢
    exact recordForm_writeTagged hT hf haccepts hlength
  | message u =>
    obtain ⟨x, rfl⟩ := Field.exists_message_of_accepts hkind haccepts
    rw [encodeElement_message hkind] at hlength ⊢
    exact recordForm_writeDelimited hT hf hlength

theorem recordsOf_writeTagged (s : Scalar) (v : Value) : RecordsOf (· = n) (s.writeTagged n v) := by
  intro hlength
  by_cases hv : s.accepts v
  · have hform : RecordForm 0 n (s.writeTagged n v) := recordForm_writeTagged hT hf hv hlength
    exact ⟨_, hform.splitsInto, by simp⟩
  · rw [Scalar.writeTagged, if_neg hv]
    exact ⟨[], .nil, by simp⟩

theorem recordsOf_writeDelimited (bs : List UInt8) : RecordsOf (· = n) (writeDelimited n bs) := by
  intro hlength
  have hform : RecordForm 0 n (writeDelimited n bs) := recordForm_writeDelimited hT hf hlength
  exact ⟨_, hform.splitsInto, by simp⟩

theorem recordsOf_encodeMessages (S : Schema) (t : TypeId) (items : List Value) :
    RecordsOf (· = n) (encodeMessages S n t items) := by
  induction items with
  | nil => exact .nil _
  | cons v items ih =>
    cases v with
    | message x =>
      rw [encodeMessages]
      refine .append ?_ ih
      split
      · exact recordsOf_writeDelimited hT hf _
      · exact .nil _
    | _ => simpa only [encodeMessages] using ih

theorem recordsOf_encodeField (S : Schema) (v : Value) :
    RecordsOf (· = n) (encodeField S f v) := by
  have hnumber := MessageType.number_of_field? hf
  have htagged := recordsOf_writeTagged hT hf
  fun_cases encodeField S f v with
  | case1 items s hkind =>
    rw [hnumber, Scalar.writeList]
    split
    · exact .nil _
    · split
      · exact recordsOf_writeDelimited hT hf _
      · exact .flatMap (htagged s) items
  | case2 items t hkind =>
    rw [hnumber]
    exact recordsOf_encodeMessages hT hf S t items
  | case3 x haccepts =>
    rw [hnumber]
    exact recordsOf_writeDelimited hT hf _
  | case4 => exact .nil _
  | case5 => exact .nil _
  | case6 v _ _ s hkind hwritten =>
    rw [hnumber]
    exact htagged s v
  | case7 => exact .nil _

end

/-! ### What is written of a message -/

theorem encodeFields_append (S : Schema) (T : MessageType) (front back : List (Nat × Value)) :
    encodeFields S T (front ++ back) = encodeFields S T front ++ encodeFields S T back := by
  induction front with
  | nil => rfl
  | cons p front ih => rw [List.cons_append, encodeFields, encodeFields, ih, List.append_assoc]

/-- The induction is on the stored fields; a number that is not declared leaves no record. -/
theorem recordsOf_encodeFields (hT : T.WellFormed types) (S : Schema) {fields : List (Nat × Value)}
    (hfields : ∀ p ∈ fields, P p.1) : RecordsOf P (encodeFields S T fields) := by
  induction fields with
  | nil => exact .nil P
  | cons p fields ih =>
    obtain ⟨n, v⟩ := p
    obtain ⟨hn, hfields⟩ := List.forall_mem_cons.mp hfields
    rw [encodeFields]
    refine .append ?_ (ih hfields)
    split
    · rename_i f hf
      exact (recordsOf_encodeField hT hf S v).mono fun k hk => hk ▸ hn
    · exact .nil P

end Protowire
