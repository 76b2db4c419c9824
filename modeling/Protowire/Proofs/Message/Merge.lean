import Protowire.Message.Merge
import Protowire.Proofs.Message.Canonical
import Protowire.Proofs.Record

/-!
Merging as a run of steps, one for each record. `Message.after` says once what one record does to a
message; merging reads a record and goes on from there (`merge_record`), so what each step keeps,
the whole run keeps, and a run over `a ++ b` is a run over `a` followed by one over `b`.
-/

namespace Protowire

open Reader Wire

/-- What decoding reports of a merge. -/
def Merged.result (r : Merged) : Except DecodeError Message :=
  match r.error? with
  | some e => .error e
  | none => .ok r.message

/-- The message after one record, and what went wrong inside the record's body. -/
def Message.after (S : Schema) (nesting : Nesting) (m : Message) :
    Record → Message × Option DecodeError
  | .unknown => (m, none)
  | .value f v => (m.take S f v, none)
  | .packed f vs => (m.appendItems f.number vs, none)
  | .body f t bytes =>
    let inner := merge S nesting.deeper ((m.target? f).getD (Message.empty t)) bytes
    match inner.error? with
    | some e => (m.keepTarget f inner.message, some e)
    | none => (m.takeMessage S f inner.message, none)

variable {S : Schema} {nesting : Nesting} {m : Message} {bs rest : List UInt8}

theorem Message.decode_eq (S : Schema) (t : TypeId) (limits : Limits) (bs : List UInt8) :
    Message.decode S t limits bs =
      if limits.size < bs.length then .error (.messageTooLarge bs.length limits.size)
      else (merge S limits.nesting (Message.empty t) bs).result := rfl

theorem Message.decode_eq_ok_iff {t : TypeId} {limits : Limits} :
    Message.decode S t limits bs = .ok m ↔ bs.length ≤ limits.size ∧
      (merge S limits.nesting (Message.empty t) bs).error? = none ∧
        (merge S limits.nesting (Message.empty t) bs).message = m := by
  rw [Message.decode_eq, Merged.result]
  split
  · rename_i hsize
    simp only [reduceCtorEq, false_iff, not_and]
    omega
  · rename_i hsize
    split <;> simp_all

@[simp] theorem merge_nil : merge S nesting m [] = ⟨m, [], none⟩ := by
  rw [merge]
  rfl

theorem merge_record {r : Record}
    (hr : Record.read (S.type m.type) nesting bs = .ok r rest) :
    merge S nesting m bs =
      match m.after S nesting r with
      | (m', none) => merge S nesting m' rest
      | (m', some e) => ⟨m', rest, some e⟩ := by
  have hne : bs.isEmpty = false := by
    have := Record.read_ok hr
    cases bs <;> simp_all
  rw [merge, hne]
  simp only [Bool.false_eq_true, ↓reduceIte]
  split <;> rename_i hr' <;> rw [hr] at hr' <;> cases hr'
  · rfl
  · rfl
  · rfl
  · simp only [Message.after]
    split <;> simp_all

theorem merge_error {e : DecodeError} (hne : bs ≠ [])
    (hr : Record.read (S.type m.type) nesting bs = .error e rest) :
    merge S nesting m bs = ⟨m, rest, some e⟩ := by
  have hne : bs.isEmpty = false := by cases bs <;> simp_all
  rw [merge, hne]
  simp only [Bool.false_eq_true, ↓reduceIte]
  split <;> rename_i hr' <;> rw [hr] at hr' <;> cases hr'
  rfl

/-- The first step of a merge: no input, no record, a record that fails inside, or one that does
not. -/
theorem merge_cases (S : Schema) (nesting : Nesting) (m : Message) (bs : List UInt8) :
    bs = [] ∨
    (bs ≠ [] ∧ ∃ e rest, Record.read (S.type m.type) nesting bs = .error e rest) ∨
    ∃ r rest m' e?, Record.read (S.type m.type) nesting bs = .ok r rest ∧
      rest.length < bs.length ∧ m.after S nesting r = (m', e?) := by
  by_cases hne : bs = []
  · exact .inl hne
  · cases hr : Record.read (S.type m.type) nesting bs with
    | error e rest => exact .inr (.inl ⟨hne, e, rest, rfl⟩)
    | ok r rest =>
      have := Record.read_ok hr
      exact .inr (.inr ⟨r, rest, _, _, rfl, by omega, rfl⟩)

/-- A body's record goes through just when its body does. -/
theorem error?_of_after_body {f : Field} {t : TypeId} {bytes : List UInt8} {m' : Message}
    (h : m.after S nesting (.body f t bytes) = (m', none)) :
    (merge S nesting.deeper ((m.target? f).getD (Message.empty t)) bytes).error? = none := by
  simp only [Message.after] at h
  split at h
  · cases h
  · assumption

/-- Two schemas agree on what a record does to a message if they agree on what the message takes and
on what its body does to the message that it is merged into. -/
theorem Message.after_congr {S' : Schema} {r : Record}
    (htake : ∀ f v, m.take S' f v = m.take S f v)
    (hbody : ∀ f t bytes, r = .body f t bytes →
      merge S' nesting.deeper ((m.target? f).getD (Message.empty t)) bytes =
        merge S nesting.deeper ((m.target? f).getD (Message.empty t)) bytes) :
    m.after S' nesting r = m.after S nesting r := by
  cases r with
  | unknown | packed => rfl
  | value f v => rw [after, after, htake]
  | body f t bytes => simp only [after, takeMessage, hbody f t bytes rfl, htake]

theorem merge_form {form : List UInt8} {r : Record} {m' : Message}
    (hform : Record.Form (S.type m.type) nesting.room form r)
    (hafter : m.after S nesting r = (m', none)) (rest : List UInt8) :
    merge S nesting m (form ++ rest) = merge S nesting m' rest := by
  rw [merge_record (hform.read rest), hafter]

/-- Induction along a merge that goes through: on its records, and for each record also on what
merging the record's body into another message would be. -/
theorem merge_induction {motive : ∀ nesting m bs, (merge S nesting m bs).error? = none → Prop}
    (nil : ∀ nesting m, motive nesting m [] (merge_nil ▸ rfl))
    (record : ∀ {nesting : Nesting} {m m' : Message} {form rest : List UInt8} {r : Record}
      (hform : Record.Form (S.type m.type) nesting.room form r)
      (hafter : m.after S nesting r = (m', none))
      (hrest : (merge S nesting m' rest).error? = none)
      (_ : ∀ x hbody, motive nesting.deeper x r.bytes hbody) (_ : motive nesting m' rest hrest),
      motive nesting m (form ++ rest) (merge_form hform hafter rest ▸ hrest))
    (h : (merge S nesting m bs).error? = none) : motive nesting m bs h := by
  induction hn : bs.length using Nat.strongRecOn generalizing nesting m bs with
  | ind n ih =>
    obtain rfl | ⟨hne, e, rest, hr⟩ | ⟨r, rest, m', e?, hr, hlt, hafter⟩ :=
      merge_cases S nesting m bs
    · exact nil nesting m
    · rw [merge_error hne hr] at h
      cases h
    · have hshorter := Record.read_ok hr
      obtain ⟨form, hform, rfl⟩ := (Record.reads_read _ _).form hr
      have hrest := h
      rw [merge_record hr, hafter] at hrest
      cases e? with
      | some e => cases hrest
      | none =>
        exact record hform hafter hrest (fun x hbody => ih r.bytes.length (by omega) hbody rfl)
          (ih rest.length (hn ▸ hlt) hrest rfl)

/-! ### Longer input -/

theorem merge_append {a : List UInt8} (h : (merge S nesting m a).error? = none) (b : List UInt8) :
    merge S nesting m (a ++ b) = merge S nesting (merge S nesting m a).message b := by
  induction h using merge_induction with
  | nil => rw [merge_nil, List.nil_append]
  | record hform hafter _ _ ih =>
    rw [List.append_assoc, merge_form hform hafter, merge_form hform hafter, ih]

/-- A failure that is not for want of input comes as early on a longer input. -/
theorem merge_append_error {a : List UInt8} {e : DecodeError}
    (h : (merge S nesting m a).error? = some e) (he : e.wantsMore = false) (b : List UInt8) :
    merge S nesting m (a ++ b) =
      ⟨(merge S nesting m a).message, (merge S nesting m a).rest ++ b, some e⟩ := by
  induction hn : a.length using Nat.strongRecOn generalizing m a with
  | ind n ih =>
    obtain rfl | ⟨hne, e', rest, hr⟩ | ⟨r, rest, m', e?, hr, hlt, hafter⟩ :=
      merge_cases S nesting m a
    · simp at h
    · rw [merge_error hne hr] at h ⊢
      cases h
      exact merge_error (by simp [hne]) (Record.stable_read _ _ _ _ _ b hr he)
    · rw [merge_record ((Record.reads_read _ _).append hr b), merge_record hr, hafter]
      rw [merge_record hr, hafter] at h
      cases e? with
      | some e => cases h; rfl
      | none => exact ih rest.length (hn ▸ hlt) h rfl

/-! ### Where a body goes -/

namespace Message

variable {f : Field}

theorem target?_of_repeated (hrepeated : f.repeated) : m.target? f = none := by
  rw [target?, if_pos hrepeated]

theorem target?_of_singular (hsingular : f.repeated = false) :
    m.target? f = m.message? f.number := by
  rw [target?, hsingular]
  rfl

theorem target?_eq_some_iff {x : Message} :
    m.target? f = some x ↔ f.repeated = false ∧ m.get? f.number = some (.message x) := by
  cases hrepeated : f.repeated with
  | true => simp [target?_of_repeated hrepeated]
  | false => simp [target?_of_singular hrepeated, message?_eq_some_iff]

theorem take_of_singular (hsingular : f.repeated = false) (v : Value) :
    m.take S f v = m.store S f v := by
  rw [take, if_neg (by simp [hsingular])]

theorem target?_insert (m : Message) (hsingular : f.repeated = false) (x : Message) :
    (m.insert f.number (.message x)).target? f = some x :=
  target?_eq_some_iff.mpr ⟨hsingular, by rw [get?_insert, if_pos rfl]⟩

end Message

/-! ### What a merge keeps -/

namespace Message

theorem type_take (S : Schema) (m : Message) (f : Field) (v : Value) :
    (m.take S f v).type = m.type := by
  simp only [take]
  split <;> simp

theorem type_takeMessage (S : Schema) (m : Message) (f : Field) (x : Message) :
    (m.takeMessage S f x).type = m.type := by
  simp only [takeMessage]
  split
  · rfl
  · exact type_take ..

theorem type_keepTarget (m : Message) (f : Field) (x : Message) :
    (m.keepTarget f x).type = m.type := by
  simp only [keepTarget]
  split <;> rfl

theorem type_after (S : Schema) (nesting : Nesting) (m : Message) (r : Record) :
    (m.after S nesting r).1.type = m.type := by
  cases r with
  | unknown => rfl
  | value f v => exact type_take ..
  | packed f vs => exact type_appendItems ..
  | body f t bytes =>
    simp only [after]
    split
    · exact type_keepTarget ..
    · exact type_takeMessage ..

theorem type_of_after {r : Record} {m' : Message} {e? : Option DecodeError}
    (h : m.after S nesting r = (m', e?)) : m'.type = m.type := by
  have htype := m.type_after S nesting r
  rwa [h] at htype

end Message

theorem type_merge (S : Schema) (nesting : Nesting) (m : Message) (bs : List UInt8) :
    (merge S nesting m bs).message.type = m.type := by
  induction hn : bs.length using Nat.strongRecOn generalizing m bs with
  | ind n ih =>
    obtain rfl | ⟨hne, e, rest, hr⟩ | ⟨r, rest, m', e?, hr, hlt, hafter⟩ :=
      merge_cases S nesting m bs
    · simp
    · rw [merge_error hne hr]
    · have htype := Message.type_of_after hafter
      rw [merge_record hr, hafter]
      cases e? with
      | some e => exact htype
      | none => exact (ih rest.length (hn ▸ hlt) m' rest rfl).trans htype

/-- Bytes that merge consist of records. -/
theorem exists_forms (h : (merge S nesting m bs).error? = none) :
    ∃ rs, Record.Forms (S.type m.type) nesting.room bs rs := by
  induction h using merge_induction with
  | nil => exact ⟨[], .nil⟩
  | @record _ _ _ _ _ r hform hafter _ _ ih =>
    obtain ⟨rs, hrest⟩ := ih
    rw [Message.type_of_after hafter] at hrest
    exact ⟨r :: rs, .cons hform hrest⟩

namespace Message.Canonical

variable {f : Field} {n : Nat}

theorem take {v : Value} (hS : S.WellFormed) (hm : m.Canonical S)
    (hf : (S.type m.type).field? n = some f) (haccepts : f.kind.accepts S v)
    (hv : v.Canonical S) : (m.take S f v).Canonical S := by
  simp only [Message.take]
  split
  · rename_i hrepeated
    rw [MessageType.number_of_field? hf]
    exact hm.appendItems hS hf hrepeated (by simp [haccepts, hv])
  · rename_i hrepeated
    exact hm.store hS hf (by simpa using hrepeated) haccepts hv

/-- A body is merged into a canonical message of the field's type. -/
theorem target {t : TypeId} (hS : S.WellFormed) (hm : m.Canonical S)
    (hf : (S.type m.type).field? n = some f) (hkind : f.kind = .message t) :
    ((m.target? f).getD (Message.empty t)).Canonical S ∧
      ((m.target? f).getD (Message.empty t)).type = t := by
  have hT := hS.type m.type
  have hmem := MessageType.mem_of_field? hf
  have hempty : (Message.empty t).Canonical S := .empty (hT.references f hmem t hkind)
  cases htarget : m.target? f with
  | none => exact ⟨hempty, rfl⟩
  | some x =>
    obtain ⟨_, hv⟩ := Message.target?_eq_some_iff.mp htarget
    rw [MessageType.number_of_field? hf] at hv
    have hx := hm.message (message?_eq_some_iff.mpr hv)
    cases hm.holds hf hv with
    | one _ haccepts => exact ⟨hx, type_eq hS hT hmem hkind hx haccepts⟩

/-- In place of a message that is there, another one of the same type. -/
theorem replaceMessage {t : TypeId} {x y : Message} (hm : m.Canonical S)
    (hf : (S.type m.type).field? n = some f) (hkind : f.kind = .message t)
    (htarget : m.target? f = some x) (hy : y.Canonical S) (htype : y.type = t) :
    (m.insert n (.message y)).Canonical S := by
  obtain ⟨hsingular, hv⟩ := Message.target?_eq_some_iff.mp htarget
  rw [MessageType.number_of_field? hf] at hv
  refine hm.replace hf (by simp [hv]) (.one hsingular ?_ ?_) (.message hy)
  · simp [hkind, Kind.accepts, htype]
  · exact fun _ => rfl

theorem takeMessage {t : TypeId} {x : Message} (hS : S.WellFormed) (hm : m.Canonical S)
    (hf : (S.type m.type).field? n = some f) (hkind : f.kind = .message t)
    (hx : x.Canonical S) (htype : x.type = t) : (m.takeMessage S f x).Canonical S := by
  simp only [Message.takeMessage]
  split
  · rename_i htarget
    rw [MessageType.number_of_field? hf]
    exact hm.replaceMessage hf hkind htarget hx htype
  · exact hm.take hS hf (by simp [hkind, Kind.accepts, htype]) (.message hx)

theorem keepTarget {t : TypeId} {x : Message} (hm : m.Canonical S)
    (hf : (S.type m.type).field? n = some f) (hkind : f.kind = .message t)
    (hx : x.Canonical S) (htype : x.type = t) : (m.keepTarget f x).Canonical S := by
  simp only [Message.keepTarget]
  split
  · rename_i htarget
    rw [MessageType.number_of_field? hf]
    exact hm.replaceMessage hf hkind htarget hx htype
  · exact hm

/-- One record keeps a message canonical, also one that fails inside, provided that merging the
record's body does. -/
theorem after {room : Nat} {form : List UInt8} {r : Record} (hS : S.WellFormed)
    (nesting : Nesting) (hm : m.Canonical S) (hform : Record.Form (S.type m.type) room form r)
    (hbody : ∀ x : Message, x.Canonical S →
      (merge S nesting.deeper x r.bytes).message.Canonical S) :
    (m.after S nesting r).1.Canonical S := by
  cases hform with
  | unknown => exact hm
  | value hfield hkind _ hvalue =>
    refine hm.take hS hfield ?_ (.of_scalar hvalue.accepts)
    rw [hkind]
    exact hvalue.accepts
  | packed hfield hkind hrepeated _ _ _ hrun =>
    refine hm.appendItems hS ?_ hrepeated fun v hv => ⟨?_, .of_scalar (hrun.accepts v hv)⟩
    · rwa [MessageType.number_of_field? hfield]
    · rw [hkind]
      exact hrun.accepts v hv
  | @body number f t tag value bytes hfield hkind =>
    obtain ⟨htarget, htype⟩ := hm.target hS hfield hkind
    have hinner := hbody _ htarget
    have hinnerType := (type_merge S nesting.deeper _ bytes).trans htype
    simp only [Message.after]
    split
    · exact hm.keepTarget hfield hkind hinner hinnerType
    · exact hm.takeMessage hS hfield hkind hinner hinnerType

/-- Merging keeps a message canonical, whether it succeeds or fails. -/
theorem merge (hS : S.WellFormed) (hm : m.Canonical S) :
    (merge S nesting m bs).message.Canonical S := by
  induction hn : bs.length using Nat.strongRecOn generalizing nesting m bs with
  | ind n ih =>
    obtain rfl | ⟨hne, e, rest, hr⟩ | ⟨r, rest, m', e?, hr, hlt, hafter⟩ :=
      merge_cases S nesting m bs
    · simpa using hm
    · rwa [merge_error hne hr]
    · obtain ⟨form, hform, _⟩ := (Record.reads_read _ _).form hr
      have hshorter := Record.read_ok hr
      -- a record's body is shorter than the input, so the induction speaks of it too
      have hm' : m'.Canonical S := by
        have := hm.after hS nesting hform fun x hx =>
          ih r.bytes.length (by omega) hx rfl
        rwa [hafter] at this
      rw [merge_record hr, hafter]
      cases e? with
      | some e => exact hm'
      | none => exact ih rest.length (hn ▸ hlt) hm' rfl

theorem of_after {form : List UInt8} {r : Record} {m' : Message}
    {e? : Option DecodeError} (hS : S.WellFormed) (hm : m.Canonical S)
    (hrecord : Record.Form (S.type m.type) nesting.room form r)
    (hafter : m.after S nesting r = (m', e?)) : m'.Canonical S ∧ m'.type = m.type := by
  have hcanonical := hm.after hS nesting hrecord fun x hx => hx.merge hS
  rw [hafter] at hcanonical
  exact ⟨hcanonical, type_of_after hafter⟩

theorem decode {t : TypeId} {limits : Limits} (hS : S.WellFormed) (ht : t < S.types.size)
    (h : Message.decode S t limits bs = .ok m) : m.Canonical S := by
  obtain ⟨_, _, rfl⟩ := Message.decode_eq_ok_iff.mp h
  exact (Message.Canonical.empty ht).merge hS

end Message.Canonical

theorem type_decode {t : TypeId} {limits : Limits} (h : Message.decode S t limits bs = .ok m) :
    m.type = t := by
  obtain ⟨_, _, rfl⟩ := Message.decode_eq_ok_iff.mp h
  exact type_merge S limits.nesting (Message.empty t) bs

/-- Whether bytes merge, and which error they end with, does not depend on what the message holds.
-/
theorem error?_merge_congr {m' : Message} (hS : S.WellFormed) (hm : m.Canonical S)
    (hm' : m'.Canonical S) (htype : m.type = m'.type) (nesting : Nesting) (bs : List UInt8) :
    (merge S nesting m bs).error? = (merge S nesting m' bs).error? := by
  induction hn : bs.length using Nat.strongRecOn generalizing nesting m m' bs with
  | ind n ih =>
    obtain rfl | ⟨hne, e, rest, hr⟩ | ⟨r, rest, m₁, e?, hr, hlt, hafter⟩ :=
      merge_cases S nesting m bs
    · simp
    · rw [merge_error hne hr, merge_error hne (htype ▸ hr)]
    · obtain ⟨form, hform, _⟩ := (Record.reads_read _ _).form hr
      have hshorter := Record.read_ok hr
      obtain ⟨m₂, e₂?, hafter'⟩ : ∃ m₂ e₂?, m'.after S nesting r = (m₂, e₂?) := ⟨_, _, rfl⟩
      -- only a body can fail inside, and its two targets are canonical and of one type
      have hsame : e? = e₂? := by
        cases hform with
        | @body number f t _ _ bytes hfield hkind =>
          obtain ⟨ht, htt⟩ := hm.target hS hfield hkind
          obtain ⟨ht', htt'⟩ := hm'.target hS (htype ▸ hfield) hkind
          have hinner := ih bytes.length (by simp only [Record.bytes] at hshorter; omega) ht ht'
            (htt.trans htt'.symm) nesting.deeper bytes rfl
          simp only [Message.after] at hafter hafter'
          split at hafter <;> split at hafter' <;> simp_all
        | _ => cases hafter; cases hafter'; rfl
      obtain ⟨hm₁, htype₁⟩ := hm.of_after hS hform hafter
      obtain ⟨hm₂, htype₂⟩ := hm'.of_after hS (htype ▸ hform) hafter'
      have htype' : m₁.type = m₂.type := by rw [htype₁, htype, htype₂]
      rw [merge_record hr, hafter, merge_record (htype ▸ hr), hafter']
      subst hsame
      cases e? with
      | some e => rfl
      | none => exact ih rest.length (hn ▸ hlt) hm₁ hm₂ htype' nesting rest rfl

/-! ### Records with a body -/

/-- The forms of a record with number `n` and a message's body: a tag, a length and the body. -/
def Wire.BodyForm (n : Nat) (form body : List UInt8) : Prop :=
  ∃ tag value, TagForm tag (n, .lengthDelimited) ∧ DelimitedForm value body ∧ form = tag ++ value

variable {f : Field} {n : Nat} {t : TypeId} {form body : List UInt8}

theorem merge_bodyForm (hf : (S.type m.type).field? n = some f) (hkind : f.kind = .message t)
    (hroom : 0 < nesting.room) (hform : BodyForm n form body) (rest : List UInt8) :
    merge S nesting m (form ++ rest) =
      match m.after S nesting (.body f t body) with
      | (m', none) => merge S nesting m' rest
      | (m', some e) => ⟨m', rest, some e⟩ := by
  obtain ⟨tag, value, htag, hvalue, rfl⟩ := hform
  exact merge_record ((Record.Form.body hf hkind hroom htag hvalue).read rest)

/-- Without room for another message, its record fails before its body is looked at. -/
theorem merge_bodyForm_of_room_eq_zero (hf : (S.type m.type).field? n = some f)
    (hkind : f.kind = .message t) (hroom : nesting.room = 0) (hform : BodyForm n form body)
    (rest : List UInt8) :
    (merge S nesting m (form ++ rest)).error? = some (.recursionLimitExceeded nesting.limit) ∧
      (merge S nesting m (form ++ rest)).message = m := by
  obtain ⟨tag, value, htag, _, rfl⟩ := hform
  have hlimit : nesting.limit ≤ nesting.depth := by
    rw [Nesting.room] at hroom
    omega
  have hread : Record.read (S.type m.type) nesting (tag ++ (value ++ rest)) =
      .error (.recursionLimitExceeded nesting.limit) (value ++ rest) := by
    rw [Record.read_declared hf (by decide) htag]
    simp only [Record.readField, hkind, readNested, Functor.map, EStateM.map, hlimit, ↓reduceIte]
  have hne : tag ++ (value ++ rest) ≠ [] := by
    obtain ⟨b, bs, h⟩ := htag.append_eq_cons (value ++ rest)
    simp [h]
  rw [List.append_assoc, merge_error hne hread]
  exact ⟨rfl, rfl⟩

end Protowire
