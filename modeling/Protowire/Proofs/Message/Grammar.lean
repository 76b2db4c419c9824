import Protowire.Proofs.Message.Names
import Protowire.Proofs.Vision.Schema

/-!
The grammar of messages and what it means. The bytes of a message are records one behind the other;
the body of a record is again the bytes of a message. Decoding accepts exactly these bytes, however
long-winded their numbers are and in whatever order the records stand, and gives the message that
taking in the records from left to right gives.
-/

namespace Protowire

open Reader Wire

/-- What a record says about a declared field; of a message's body, what all its records say. -/
inductive Entry
  | value (f : Field) (v : Value)
  | packed (f : Field) (vs : List Value)
  | body (f : Field) (t : TypeId) (entries : List Entry)

/-- The forms of a message of type `t` in which messages and groups nest at most `room` deep. -/
inductive MessageForm (S : Schema) : (room : Nat) → TypeId → List UInt8 → List Entry → Prop
  | nil {room : Nat} {t : TypeId} : MessageForm S room t [] []
  | unknown {room : Nat} {t : TypeId} {form rest : List UInt8} {entries : List Entry}
    (hrecord : Record.Form (S.type t) room form .unknown)
    (hrest : MessageForm S room t rest entries) : MessageForm S room t (form ++ rest) entries
  | value {room : Nat} {t : TypeId} {form rest : List UInt8} {entries : List Entry} {f : Field}
    {v : Value} (hrecord : Record.Form (S.type t) room form (.value f v))
    (hrest : MessageForm S room t rest entries) :
    MessageForm S room t (form ++ rest) (.value f v :: entries)
  | packed {room : Nat} {t : TypeId} {form rest : List UInt8} {entries : List Entry} {f : Field}
    {vs : List Value} (hrecord : Record.Form (S.type t) room form (.packed f vs))
    (hrest : MessageForm S room t rest entries) :
    MessageForm S room t (form ++ rest) (.packed f vs :: entries)
  | body {room : Nat} {t u : TypeId} {form rest bytes : List UInt8} {inner entries : List Entry}
    {f : Field} (hrecord : Record.Form (S.type t) room form (.body f u bytes))
    (hbody : MessageForm S (room - 1) u bytes inner) (hrest : MessageForm S room t rest entries) :
    MessageForm S room t (form ++ rest) (.body f u inner :: entries)

/-! ### What the records amount to -/

/-- The other singular fields that name the oneof group of a field, if there is such a group. -/
def MessageType.siblings (T : MessageType) (f : Field) : List Nat :=
  if (f.oneof.bind T.oneof?).isSome then
    (T.fields.filter fun g =>
      !g.repeated && g.oneof = f.oneof && g.number ≠ f.number).map (·.number)
  else []

/-- A singular field takes a value: its siblings become unset, and so does the field itself if the
value is a default and being unset is no different. -/
def Message.overwrite (S : Schema) (m : Message) (f : Field) (v : Value) : Message :=
  let m := m.clearAll ((S.type m.type).siblings f)
  if v.isDefault && !f.tracksPresence then m.clear f.number else m.insert f.number v

/-- A repeated field takes elements behind those that it has. -/
def Message.extend (m : Message) (f : Field) (vs : List Value) : Message :=
  match vs with
  | [] => m
  | _ :: _ => m.insert f.number (.list (m.items f.number ++ vs))

mutual

/-- A message takes in what a record says. A body amounts to a message of its own, except that one
for a singular field goes on from the message that is there. -/
def Entry.fold (S : Schema) (m : Message) : Entry → Message
  | .value f v => if f.repeated then m.extend f [v] else m.overwrite S f v
  | .packed f vs => m.extend f vs
  | .body f t entries =>
    if f.repeated then m.extend f [.message (foldEntries S (Message.empty t) entries)]
    else
      m.overwrite S f
        (.message (foldEntries S ((m.message? f.number).getD (Message.empty t)) entries))

/-- A message takes in records from left to right. -/
def foldEntries (S : Schema) (m : Message) : List Entry → Message
  | [] => m
  | e :: entries => foldEntries S (e.fold S m) entries

end

variable {S : Schema} {nesting : Nesting} {m : Message} {f : Field} {n : Nat}

theorem MessageType.WellFormed.mem_siblings_iff {types k : Nat} {T : MessageType}
    (hT : T.WellFormed types) : k ∈ T.siblings f ↔ k ∈ T.rivals f := by
  unfold siblings rivals
  cases hgroup : f.oneof.bind T.oneof? with
  | none => simp
  | some group =>
    obtain ⟨i, ho, hi⟩ := Option.bind_eq_some_iff.mp hgroup
    simp only [Option.isSome_some, ↓reduceIte, List.mem_map, List.mem_filter, hT.members i group hi,
      ho, Bool.and_eq_true, Bool.not_eq_true', decide_eq_true_eq]
    constructor
    · rintro ⟨g, ⟨hg, ⟨hr, hgo⟩, hne⟩, rfl⟩
      exact ⟨⟨g, hg, rfl, hr, hgo⟩, hne⟩
    · rintro ⟨⟨g, hg, rfl, hr, hgo⟩, hne⟩
      exact ⟨g, ⟨hg, ⟨hr, hgo⟩, hne⟩, rfl⟩

theorem Message.clearAll_siblings (hS : S.WellFormed) (m : Message) (f : Field) :
    m.clearAll ((S.type m.type).siblings f) = m.clearAll ((S.type m.type).rivals f) := by
  have hmem (p : Nat × Value) :
      decide (p.1 ∉ (S.type m.type).siblings f) = decide (p.1 ∉ (S.type m.type).rivals f) := by
    simp only [(hS.type m.type).mem_siblings_iff]
  simp only [clearAll, FieldMap.eraseAll, hmem]

theorem Message.store_eq_overwrite (hS : S.WellFormed) (m : Message) (f : Field) (v : Value) :
    m.store S f v = m.overwrite S f v := by
  simp only [store, overwrite, m.clearAll_siblings hS f, Bool.and_comm]

theorem Message.appendItems_eq_extend (m : Message) (f : Field) (vs : List Value) :
    m.appendItems f.number vs = m.extend f vs := by
  cases vs <;> rfl

/-- What a message is merged into stays where it is; nothing else of its oneof group is set. -/
theorem Message.insert_eq_overwrite {x : Message} (hS : S.WellFormed) (hm : m.Canonical S)
    (hf : (S.type m.type).field? n = some f) (hsingular : f.repeated = false)
    (hset : m.get? n ≠ none) :
    m.insert n (.message x) = m.overwrite S f (.message x) := by
  have hnumber := MessageType.number_of_field? hf
  have hrivals : ∀ k ∈ (S.type m.type).rivals f, FieldMap.get? m.fields k = none := by
    intro k hk
    obtain ⟨hne, group, hgroup, hn, hk⟩ :=
      (hS.type m.type).exists_group_of_mem_rivals hf hsingular hk
    by_contra h
    exact hne (hm.shaped.exclusive group hgroup k hk n hn h hset)
  have hclear : m.clearAll ((S.type m.type).siblings f) = m := by
    rw [m.clearAll_siblings hS, clearAll, FieldMap.eraseAll_of_get?_eq_none hrivals, Message.eta]
  rw [overwrite, hclear, hnumber]
  simp [Value.isDefault]

/-- Taking in a body is taking in the message that it comes to. -/
theorem Message.takeMessage_eq_fold {t : TypeId} {entries : List Entry} (hS : S.WellFormed)
    (hm : m.Canonical S) (hf : (S.type m.type).field? n = some f) :
    m.takeMessage S f (foldEntries S ((m.target? f).getD (Message.empty t)) entries) =
      (Entry.body f t entries).fold S m := by
  have hnumber := MessageType.number_of_field? hf
  rw [Entry.fold]
  by_cases hrepeated : f.repeated
  · have htarget : m.target? f = none := target?_of_repeated hrepeated
    simp only [takeMessage, htarget, take, hrepeated, ↓reduceIte, Option.getD_none,
      appendItems_eq_extend]
  · have htarget : m.target? f = m.message? f.number :=
      target?_of_singular (by simpa using hrepeated)
    rw [if_neg hrepeated, takeMessage, htarget]
    cases hx : m.message? f.number with
    | none => simp only [take, hrepeated, store_eq_overwrite hS]; rfl
    -- merged in place, past the rule for setting a field; the rule would have done the same
    | some x =>
      have hset : m.get? n ≠ none := by
        intro h
        simp [message?, hnumber, h] at hx
      rw [hnumber]
      exact insert_eq_overwrite hS hm hf (by simpa using hrepeated) hset

theorem Message.take_eq_fold (hS : S.WellFormed) (m : Message) (f : Field) (v : Value) :
    m.take S f v = (Entry.value f v).fold S m := by
  simp only [take, Entry.fold, store_eq_overwrite hS, appendItems_eq_extend]

/-! ### Decoding along the grammar -/

/-- The bytes of a message merge into any canonical message of its type. The induction is on the
grammar; that the message stays canonical is what finds the targets of bodies. -/
theorem MessageForm.merge_eq {room : Nat} {t : TypeId} {bs : List UInt8} {entries : List Entry}
    (hS : S.WellFormed) (h : MessageForm S room t bs entries) (hroom : nesting.room = room)
    (hm : m.Canonical S) (htype : m.type = t) :
    merge S nesting m bs = ⟨foldEntries S m entries, [], none⟩ := by
  induction h generalizing nesting m with
  | nil => rw [merge_nil, foldEntries]
  | unknown hrecord _ ih =>
    subst hroom htype
    rw [merge_form hrecord rfl, ih rfl hm rfl]
  | @value _ _ _ _ _ f v hrecord _ ih =>
    subst hroom htype
    have hafter : m.after S nesting (.value f v) = ((Entry.value f v).fold S m, none) := by
      rw [← m.take_eq_fold hS, Message.after]
    obtain ⟨hm', htype'⟩ := hm.of_after hS hrecord hafter
    rw [merge_form hrecord hafter, ih rfl hm' htype', foldEntries]
  | @packed _ _ _ _ _ f vs hrecord _ ih =>
    subst hroom htype
    have hafter : m.after S nesting (.packed f vs) = ((Entry.packed f vs).fold S m, none) := by
      rw [Entry.fold, ← m.appendItems_eq_extend, Message.after]
    obtain ⟨hm', htype'⟩ := hm.of_after hS hrecord hafter
    rw [merge_form hrecord hafter, ih rfl hm' htype', foldEntries]
  | @body _ _ u _ _ bytes inner _ f hrecord _ _ ihbody ih =>
    subst hroom htype
    obtain ⟨n, hf, hkind, _⟩ := hrecord.body_field
    -- the body goes on from its target, which is itself canonical and of the body's type
    obtain ⟨htarget, htype⟩ := hm.target hS hf hkind
    have hinner := ihbody (Nesting.room_deeper nesting) htarget htype
    have hafter : m.after S nesting (.body f u bytes) =
        ((Entry.body f u inner).fold S m, none) := by
      simp only [Message.after, hinner, Message.takeMessage_eq_fold hS hm hf]
    obtain ⟨hm', htype'⟩ := hm.of_after hS hrecord hafter
    rw [merge_form hrecord hafter, ih rfl hm' htype', foldEntries]

/-- Bytes that merge split into records. -/
theorem exists_messageForm {bs : List UInt8} (hS : S.WellFormed) (hm : m.Canonical S)
    (h : (merge S nesting m bs).error? = none) :
    ∃ entries, MessageForm S nesting.room m.type bs entries := by
  induction h using merge_induction with
  | nil => exact ⟨[], .nil⟩
  | @record nesting m m' form rest r hrecord hafter _ ihbody ih =>
    obtain ⟨hm', htype'⟩ := hm.of_after hS hrecord hafter
    obtain ⟨entries, hrest⟩ := ih hm'
    rw [htype'] at hrest
    cases r with
    | unknown => exact ⟨entries, .unknown hrecord hrest⟩
    | value f v => exact ⟨_, .value hrecord hrest⟩
    | packed f vs => exact ⟨_, .packed hrecord hrest⟩
    | body f t bytes =>
      obtain ⟨n, hf, hkind, _⟩ := hrecord.body_field
      obtain ⟨htarget, htype⟩ := hm.target hS hf hkind
      obtain ⟨inner, hbody⟩ := ihbody _ (error?_of_after_body hafter) htarget
      rw [htype, Nesting.room_deeper] at hbody
      exact ⟨_, .body hrecord hbody hrest⟩

/-! ### The grammar is unambiguous -/

theorem Record.Form.ne_nil {T : MessageType} {room : Nat} {form : List UInt8} {r : Record}
    (h : Record.Form T room form r) (rest : List UInt8) : [] ≠ form ++ rest := by
  have hread : Record.read T ⟨0, room⟩ (form ++ rest) = .ok r rest := Record.Form.read h rest
  intro hnil
  rw [← hnil] at hread
  exact absurd (Record.read_ok hread) (Nat.not_lt_zero _)

theorem Record.Form.unique {T : MessageType} {room : Nat} {form form' rest rest' : List UInt8}
    {r r' : Record} (h : Record.Form T room form r) (h' : Record.Form T room form' r')
    (heq : form ++ rest = form' ++ rest') : r = r' ∧ rest = rest' := by
  have hread : Record.read T ⟨0, room⟩ (form ++ rest) = .ok r rest := Record.Form.read h rest
  have hread' : Record.read T ⟨0, room⟩ (form' ++ rest') = .ok r' rest' := Record.Form.read h' rest'
  rw [heq, hread'] at hread
  cases hread
  exact ⟨rfl, rfl⟩

/-- The first record settles the first entry. -/
theorem MessageForm.behind {room : Nat} {t : TypeId} {bs form rest : List UInt8} {r : Record}
    {entries : List Entry} (h : MessageForm S room t bs entries)
    (hrecord : Record.Form (S.type t) room form r) (hbs : bs = form ++ rest) :
    match r with
    | .unknown => MessageForm S room t rest entries
    | .value f v => ∃ others, entries = .value f v :: others ∧ MessageForm S room t rest others
    | .packed f vs => ∃ others, entries = .packed f vs :: others ∧ MessageForm S room t rest others
    | .body f u bytes => ∃ inner others, entries = .body f u inner :: others ∧
        MessageForm S (room - 1) u bytes inner ∧ MessageForm S room t rest others := by
  cases h with
  | nil => exact absurd hbs (hrecord.ne_nil rest)
  | unknown hrecord' hrest =>
    obtain ⟨rfl, rfl⟩ := hrecord'.unique hrecord hbs
    exact hrest
  | value hrecord' hrest =>
    obtain ⟨rfl, rfl⟩ := hrecord'.unique hrecord hbs
    exact ⟨_, rfl, hrest⟩
  | packed hrecord' hrest =>
    obtain ⟨rfl, rfl⟩ := hrecord'.unique hrecord hbs
    exact ⟨_, rfl, hrest⟩
  | body hrecord' hbody hrest =>
    obtain ⟨rfl, rfl⟩ := hrecord'.unique hrecord hbs
    exact ⟨_, _, rfl, hbody, hrest⟩

/-- Bytes split into records in one way. -/
theorem MessageForm.unique {room : Nat} {t : TypeId} {bs : List UInt8} {entries : List Entry}
    (h : MessageForm S room t bs entries) {entries' : List Entry}
    (h' : MessageForm S room t bs entries') : entries = entries' := by
  induction h generalizing entries' with
  | nil =>
    generalize hbs : [] = bs at h'
    cases h' with
    | nil => rfl
    | unknown hrecord | value hrecord | packed hrecord | body hrecord =>
      exact absurd hbs (hrecord.ne_nil _)
  | unknown hrecord _ ih => exact ih (h'.behind hrecord rfl)
  | value hrecord _ ih | packed hrecord _ ih =>
    obtain ⟨others, rfl, hrest⟩ := h'.behind hrecord rfl
    rw [ih hrest]
  | body hrecord _ _ ihbody ih =>
    obtain ⟨inner, others, rfl, hbody, hrest⟩ := h'.behind hrecord rfl
    rw [ihbody hbody, ih hrest]

/-! ### Other names -/

theorem Message.overwrite_alike {S' : Schema} (h : S.Alike S') (m : Message) (f : Field)
    (v : Value) : m.overwrite S' f v = m.overwrite S f v := by
  simp only [overwrite, MessageType.siblings, h.oneof?, h.fields]

/-- The bytes of a message are so whatever the types are called, and what they amount to is the
same. The induction is on the grammar. -/
theorem MessageForm.alike {S' : Schema} {room : Nat} {t : TypeId} {bs : List UInt8}
    {entries : List Entry} (h : S.Alike S') (hform : MessageForm S room t bs entries) :
    MessageForm S' room t bs entries ∧
      ∀ m : Message, foldEntries S' m entries = foldEntries S m entries := by
  induction hform with
  | nil => exact ⟨.nil, fun m => by rw [foldEntries, foldEntries]⟩
  | unknown hrecord _ ih => exact ⟨.unknown (h.form hrecord) ih.1, ih.2⟩
  | value hrecord _ ih =>
    refine ⟨.value (h.form hrecord) ih.1, fun m => ?_⟩
    rw [foldEntries, foldEntries, Entry.fold, Entry.fold, Message.overwrite_alike h, ih.2]
  | packed hrecord _ ih =>
    refine ⟨.packed (h.form hrecord) ih.1, fun m => ?_⟩
    rw [foldEntries, foldEntries, Entry.fold, Entry.fold, ih.2]
  | body hrecord _ _ ihbody ih =>
    refine ⟨.body (h.form hrecord) ihbody.1 ih.1, fun m => ?_⟩
    simp only [foldEntries, Entry.fold, Message.overwrite_alike h, ihbody.2, ih.2]

/-- Decoding succeeds just on the bytes of the grammar that the limits admit, and gives what their
records amount to. -/
theorem decode_accepts_grammar (hS : ∀ t, (S.type t).WellFormed S.types.size) {t : TypeId}
    (ht : t < S.types.size) (limits : Limits) (bs : List UInt8) (m : Message) :
    Message.decode S t limits bs = .ok m ↔
      bs.length ≤ limits.size ∧ ∃ entries, MessageForm S limits.recursion t bs entries ∧
        foldEntries S (Message.empty t) entries = m := by
  -- neither side changes with the names, so each type may have one of its own
  obtain ⟨R, hR, halike⟩ := Schema.exists_alike hS
  have hempty : (Message.empty t).Canonical R := .empty (halike.size ▸ ht)
  have hroom : limits.nesting.room = limits.recursion := rfl
  rw [halike.decode_eq_ok_iff, Message.decode_eq_ok_iff]
  constructor
  · rintro ⟨hsize, herror, hm⟩
    obtain ⟨entries, hform⟩ := exists_messageForm hR hempty herror
    rw [hroom] at hform
    rw [hform.merge_eq hR hroom hempty rfl] at hm
    obtain ⟨hform', hfold⟩ := hform.alike halike.symm
    exact ⟨hsize, entries, hform', (hfold _).trans hm⟩
  · rintro ⟨hsize, entries, hform, hm⟩
    obtain ⟨hform', hfold⟩ := hform.alike halike
    rw [hform'.merge_eq hR hroom hempty rfl]
    exact ⟨hsize, rfl, (hfold _).trans hm⟩

section

open Vision

/-- A group of an undeclared number, a name whose tag takes two bytes, and metadata in two pieces.
-/
def scatteredOperation : List UInt8 := [75, 76, 138, 0, 1, 120, 18, 3, 10, 1, 116, 18, 3, 18, 1, 7]

theorem scatteredOperation_in_grammar :
    ∃ entries, MessageForm schema 100 TypeName.operation.id scatteredOperation entries ∧
      foldEntries schema (Message.empty TypeName.operation.id) entries =
        ⟨TypeName.operation.id, [(1, .string "x"),
          (2, .message ⟨TypeName.any.id, [(1, .string "t"), (2, .bytes [7])]⟩)]⟩ := by
  have hgroup : Record.read (schema.type TypeName.operation.id) Limits.default.nesting
      scatteredOperation = .ok .unknown [138, 0, 1, 120, 18, 3, 10, 1, 116, 18, 3, 18, 1, 7] := by
    cbv
  have hdecode : Message.decode schema TypeName.operation.id Limits.default scatteredOperation =
      .ok ⟨TypeName.operation.id, [(1, .string "x"),
        (2, .message ⟨TypeName.any.id, [(1, .string "t"), (2, .bytes [7])]⟩)]⟩ := by
    rw [Message.decode_eq, if_neg (by decide),
      merge_record (m := Message.empty TypeName.operation.id) hgroup]
    cbv
  exact ((decode_accepts_grammar schema_wellFormed.type (id_lt_size .operation) _ _ _).mp hdecode).2

end

end Protowire
