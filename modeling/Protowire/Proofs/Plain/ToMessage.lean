import Protowire.Plain.ToMessage
import Protowire.Proofs.Message.Canonical

/-!
Messages from plain form are canonical. What is read for a field fits it, so that the unchecked
writes with which the fields are set here are as good as checked ones.
-/

namespace Protowire

theorem Scalar.accepts_of_ofPlain {s : Scalar} {name : String} {v : Plain} {value : Value}
    (h : s.ofPlain name v = .ok value) : s.accepts value := by
  cases s <;> simp only [ofPlain] at h <;> (repeat' split at h) <;> cases h <;> rfl

theorem Kind.fits_of_ofPlain {S : Schema} {kind : Kind} {s : Scalar} (hkind : kind = .scalar s)
    {name : String} {v : Plain} {value : Value} (h : s.ofPlain name v = .ok value) :
    kind.accepts S value ∧ value.Canonical S := by
  have haccepts := Scalar.accepts_of_ofPlain h
  rw [hkind]
  exact ⟨haccepts, .of_scalar haccepts⟩

theorem except_map_eq_ok {ε α β : Type} {f : α → β} {r : Except ε α} {b : β}
    (h : f <$> r = .ok b) : ∃ a, r = .ok a ∧ f a = b := by
  cases r with
  | error e => cases h
  | ok a => exact ⟨a, rfl, Except.ok.inj h⟩

theorem MessageType.mem_of_fieldNamed? {T : MessageType} {name : String} {f : Field}
    (h : T.fieldNamed? name = some f) : f ∈ T.fields :=
  List.mem_of_find?_eq_some h

variable {S : Schema}

/-! ### Entry by entry -/

section

variable {m m' : Message} {f : Field} {key : String} {v : Plain}

/-- The entries behind the first one are read into what it leads to. -/
theorem takeEntries_cons (S : Schema) (m : Message) (entry : String × Plain)
    (rest : List (String × Plain)) : takeEntries S m (entry :: rest) =
      (takeEntries S m [entry]).bind fun m => takeEntries S m rest := by
  obtain ⟨key, v⟩ := entry
  rw [takeEntries, takeEntries]
  simp only [takeEntries]
  (repeat' split) <;> rfl

theorem takeEntries_append (S : Schema) (m : Message) (front rest : List (String × Plain)) :
    takeEntries S m (front ++ rest) =
      (takeEntries S m front).bind fun m => takeEntries S m rest := by
  induction front generalizing m with
  | nil => rfl
  | cons entry front ih =>
    rw [List.cons_append, takeEntries_cons, takeEntries_cons S m entry front]
    cases takeEntries S m [entry] with
    | error e => rfl
    | ok m => exact ih m

/-- An entry of a singular field sets it, whichever spelling its key is. -/
theorem takeEntries_singular (hkey : key ≠ Plain.typeKey)
    (hnamed : (S.type m.type).fieldNamed? key = some f) (hnull : v.isNull = false)
    (hsingular : f.repeated = false) :
    takeEntries S m [(key, v)] = (f.valueOfPlain S v).map (m.put S f.number) := by
  rw [takeEntries, if_neg hkey, hnamed]
  simp only [hnull, hsingular, Bool.false_eq_true, ↓reduceIte, takeEntries]
  cases f.valueOfPlain S v <;> rfl

/-- An entry of a repeated field replaces its elements. -/
theorem takeEntries_repeated (hkey : key ≠ Plain.typeKey)
    (hnamed : (S.type m.type).fieldNamed? key = some f) (hnull : v.isNull = false)
    (hrepeated : f.repeated) :
    takeEntries S m [(key, v)] = (f.valuesOfPlain S v).map (m.putItems S f.number) := by
  rw [takeEntries, if_neg hkey, hnamed]
  simp only [hnull, hrepeated, Bool.false_eq_true, ↓reduceIte, takeEntries]
  cases f.valuesOfPlain S v <;> rfl

/-- A null is passed over. -/
theorem takeEntries_null (hkey : key ≠ Plain.typeKey)
    (hnamed : (S.type m.type).fieldNamed? key = some f) (hnull : v.isNull)
    (rest : List (String × Plain)) :
    takeEntries S m ((key, v) :: rest) = takeEntries S m rest := by
  rw [takeEntries, if_neg hkey, hnamed]
  simp only [hnull, ↓reduceIte]

/-- The name of the type is passed over. -/
theorem takeEntries_typeKey (S : Schema) (m : Message) (v : Plain)
    (rest : List (String × Plain)) :
    takeEntries S m ((Plain.typeKey, v) :: rest) = takeEntries S m rest := by
  rw [takeEntries, if_pos rfl]

theorem type_takeEntries {entries : List (String × Plain)}
    (h : takeEntries S m entries = .ok m') : m'.type = m.type := by
  induction entries generalizing m with
  | nil =>
    rw [takeEntries] at h
    cases h
    rfl
  | cons entry entries ih =>
    obtain ⟨key, v⟩ := entry
    rw [takeEntries] at h
    repeat' split at h
    all_goals first | simpa using ih h | cases h

theorem Field.valueOfPlain_scalar {s : Scalar} (hkind : f.kind = .scalar s) (v : Plain) :
    f.valueOfPlain S v = s.ofPlain f.name v := by
  cases v <;> simp only [valueOfPlain, hkind]

theorem Field.valueOfPlain_message {t : TypeId} (hkind : f.kind = .message t) (v : Plain) :
    f.valueOfPlain S v = .message <$> Message.ofPlain S t v := by
  cases v <;> simp only [valueOfPlain, hkind, Message.ofPlain] <;> rfl

end

/-! ### What is read is canonical -/

mutual

/-- The induction follows the plain value; entries behind a fault are never looked at. -/
theorem takeEntries_canonical (hS : S.WellFormed) {m m' : Message} (hm : m.Canonical S)
    (entries : List (String × Plain)) (h : takeEntries S m entries = .ok m') :
    m'.Canonical S ∧ m'.type = m.type := by
  match entries with
  | [] =>
    rw [takeEntries] at h
    cases h
    exact ⟨hm, rfl⟩
  | (key, v) :: rest =>
    rw [takeEntries] at h
    split at h
    · exact takeEntries_canonical hS hm rest h
    · split at h
      · cases h
      · rename_i f hf
        have hmem := MessageType.mem_of_fieldNamed? hf
        have hnumber := (hS.type m.type).field?_number hmem
        split at h
        · exact takeEntries_canonical hS hm rest h
        · split at h
          · rename_i hrepeated
            split at h
            · rename_i vs hvs
              have hfit := valuesOfPlain_canonical hS (hS.type m.type) hmem v hvs
              have hput := hm.putItems hS hnumber hrepeated hfit
              have hrest := takeEntries_canonical hS hput rest h
              exact ⟨hrest.1, hrest.2.trans (Message.type_putItems ..)⟩
            · cases h
          -- the unchecked write keeps the invariant because the value read is known to fit
          · rename_i hsingular
            split at h
            · rename_i value hvalue
              have hfit := valueOfPlain_canonical hS (hS.type m.type) hmem v hvalue
              have hput := hm.put hS hnumber (by simpa using hsingular) hfit.1 hfit.2
              have hrest := takeEntries_canonical hS hput rest h
              exact ⟨hrest.1, hrest.2.trans (Message.type_put ..)⟩
            · cases h

theorem valueOfPlain_canonical (hS : S.WellFormed) {T : MessageType}
    (hT : T.WellFormed S.types.size) {f : Field} (hf : f ∈ T.fields) (v : Plain) {value : Value}
    (h : f.valueOfPlain S v = .ok value) : f.kind.accepts S value ∧ value.Canonical S := by
  match v with
  | .object entries =>
    rw [Field.valueOfPlain] at h
    split at h
    · exact Kind.fits_of_ofPlain ‹_› h
    · rename_i t hkind
      obtain ⟨x, hx, rfl⟩ := except_map_eq_ok h
      have hempty : (Message.empty t).Canonical S := .empty (hT.references f hf t hkind)
      obtain ⟨hcanonical, htype⟩ := takeEntries_canonical hS hempty entries hx
      refine ⟨?_, .message hcanonical⟩
      rw [hkind, Kind.accepts, htype, decide_eq_true_eq]
      rfl
  | .null | .bool _ | .int _ | .float _ | .string _ | .array _ =>
    simp only [Field.valueOfPlain] at h
    split at h
    · exact Kind.fits_of_ofPlain ‹_› h
    · cases h

theorem valuesOfPlain_canonical (hS : S.WellFormed) {T : MessageType}
    (hT : T.WellFormed S.types.size) {f : Field} (hf : f ∈ T.fields) (v : Plain)
    {values : List Value} (h : f.valuesOfPlain S v = .ok values) :
    ∀ w ∈ values, f.kind.accepts S w ∧ w.Canonical S := by
  match v with
  | .array items =>
    rw [Field.valuesOfPlain] at h
    exact valuesOfItems_canonical hS hT hf items h
  | .null | .bool _ | .int _ | .float _ | .string _ | .object _ =>
    simp only [Field.valuesOfPlain, reduceCtorEq] at h

theorem valuesOfItems_canonical (hS : S.WellFormed) {T : MessageType}
    (hT : T.WellFormed S.types.size) {f : Field} (hf : f ∈ T.fields) (items : List Plain)
    {values : List Value} (h : f.valuesOfItems S items = .ok values) :
    ∀ w ∈ values, f.kind.accepts S w ∧ w.Canonical S := by
  match items with
  | [] =>
    rw [Field.valuesOfItems] at h
    cases h
    exact List.forall_mem_nil _
  | v :: rest =>
    rw [Field.valuesOfItems] at h
    split at h
    · rename_i value hvalue
      obtain ⟨vs, hvs, rfl⟩ := except_map_eq_ok h
      have hhead := valueOfPlain_canonical hS hT hf v hvalue
      have htail := valuesOfItems_canonical hS hT hf rest hvs
      exact List.forall_mem_cons.mpr ⟨hhead, htail⟩
    · cases h

end

/-- A message from plain form is canonical and of the type that was asked for. -/
theorem Message.ofPlain_canonical (hS : S.WellFormed) {t : TypeId} (ht : t < S.types.size)
    {v : Plain} {m : Message} (h : Message.ofPlain S t v = .ok m) :
    m.Canonical S ∧ m.type = t := by
  rw [Message.ofPlain.eq_def] at h
  split at h
  · exact takeEntries_canonical hS (.empty ht) _ h
  · cases h

end Protowire
