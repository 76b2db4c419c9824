import Protowire.Proofs.Message.Local
import Protowire.Proofs.Plain.RoundTrip

/-!
Objects that say the same in another way. Neither the order of the entries matters nor which
spelling of its field a key is, and an entry that names the type or sets a field to null says
nothing; the same holds of the objects inside. The objects must be tidy for that: each names a field
at most once and sets at most one member of a oneof group. Then its entries write to fields that
have nothing to do with each other, so that the writes may come in either order.

A place is where a plain value stands: `some t` where an object denotes a message of type `t`, and
`none` where no object is read.
-/

namespace Protowire

/-- The place that the values of a field stand at. -/
def Field.place (f : Field) : Option TypeId :=
  match f.kind with
  | .message t => some t
  | .scalar _ => none

/-- `key` is a spelling of the declared field `f`. -/
def MessageType.Spells (T : MessageType) (key : String) (f : Field) : Prop :=
  f ∈ T.fields ∧ key ∈ f.spellings

instance (T : MessageType) (key : String) (f : Field) : Decidable (T.Spells key f) :=
  inferInstanceAs (Decidable (_ ∧ _))

/-- The two entries do not name the same field, and they do not set two members of one group. -/
def MessageType.Compatible (T : MessageType) (a b : String × Plain) : Prop :=
  ∀ f g, T.Spells a.1 f → T.Spells b.1 g →
    f ≠ g ∧ (T.excludes f.number g.number → a.2.isNull ∨ b.2.isNull)

instance (T : MessageType) (a b : String × Plain) : Decidable (T.Compatible a b) :=
  decidable_of_iff (∀ f ∈ T.fields, ∀ g ∈ T.fields, a.1 ∈ f.spellings → b.1 ∈ g.spellings →
      f ≠ g ∧ (T.excludes f.number g.number → a.2.isNull ∨ b.2.isNull))
    ⟨fun h f g hf hg => h f hf.1 g hg.1 hf.2 hg.2, fun h f hf g hg ha hb => h f g ⟨hf, ha⟩ ⟨hg, hb⟩⟩

namespace Plain

/-- Every object that denotes a message has compatible entries, and so on inside. -/
inductive Tidy (S : Schema) : TypeId → Plain → Prop
  | intro {t : TypeId} {v : Plain}
      (compatible : ∀ es, v = .object es → es.Pairwise (S.type t).Compatible)
      (entries : ∀ es, v = .object es → ∀ a ∈ es, ∀ f, (S.type t).Spells a.1 f →
        ∀ u ∈ f.place, Tidy S u a.2)
      (items : ∀ items, v = .array items → ∀ w ∈ items, Tidy S t w) :
      Tidy S t v

/-- One value is written in another way than the other. What may be done to the first entry may be
done to any, since entries may be reordered. -/
inductive Rewritten (S : Schema) : Option TypeId → Plain → Plain → Prop
  | refl {p : Option TypeId} {v : Plain} : Rewritten S p v v
  | symm {p : Option TypeId} {v w : Plain} : Rewritten S p v w → Rewritten S p w v
  | trans {p : Option TypeId} {u v w : Plain} :
      Rewritten S p u v → Rewritten S p v w → Rewritten S p u w
  | reorder {p : Option TypeId} {es es' : List (String × Plain)} :
      es.Perm es' → Rewritten S p (.object es) (.object es')
  | respell {t : TypeId} {key key' : String} {f : Field} {v : Plain} {es : List (String × Plain)} :
      (S.type t).Spells key f → (S.type t).Spells key' f →
        Rewritten S (some t) (.object ((key, v) :: es)) (.object ((key', v) :: es))
  | typeName {p : Option TypeId} {v : Plain} {es : List (String × Plain)} :
      Rewritten S p (.object es) (.object ((typeKey, v) :: es))
  | null {t : TypeId} {key : String} {f : Field} {es : List (String × Plain)} :
      (S.type t).Spells key f → (∀ a ∈ es, ¬ (S.type t).Spells a.1 f) →
        Rewritten S (some t) (.object es) (.object ((key, .null) :: es))
  | field {t : TypeId} {key : String} {f : Field} {v w : Plain} {es : List (String × Plain)} :
      (S.type t).Spells key f → Rewritten S f.place v w →
        Rewritten S (some t) (.object ((key, v) :: es)) (.object ((key, w) :: es))
  -- under a key that spells no field stands nothing that is read
  | other {p : Option TypeId} {key : String} {v w : Plain} {es : List (String × Plain)} :
      (∀ t ∈ p, ∀ f, ¬ (S.type t).Spells key f) → Rewritten S none v w →
        Rewritten S p (.object ((key, v) :: es)) (.object ((key, w) :: es))
  | element {p : Option TypeId} {v w : Plain} {front back : List Plain} :
      Rewritten S p v w →
        Rewritten S p (.array (front ++ v :: back)) (.array (front ++ w :: back))

end Plain

variable {S : Schema} {T : MessageType} {types : Nat} {m : Message} {f g : Field}
  {key key' : String} {u v w : Plain} {p : Option TypeId} {t : TypeId}
  {es es' : List (String × Plain)}

/-! ### Results without their errors -/

theorem toOption_map {ε α β : Type} (g : α → β) (r : Except ε α) :
    (r.map g).toOption = r.toOption.map g := by
  cases r <;> rfl

theorem toOption_bind {ε α β : Type} (r : Except ε α) (g : α → Except ε β) :
    (r.bind g).toOption = r.toOption.bind fun a => (g a).toOption := by
  cases r <;> rfl

theorem toOption_eq_some_iff {ε α : Type} {r : Except ε α} {a : α} :
    r.toOption = some a ↔ r = .ok a := by
  cases r <;> simp [Except.toOption]

/-! ### Spellings -/

theorem Field.mem_place_iff : t ∈ f.place ↔ f.kind = .message t := by
  cases hkind : f.kind <;> simp [place, hkind]

namespace MessageType

theorem Compatible.symm {a b : String × Plain} (h : T.Compatible a b) : T.Compatible b a := by
  intro f g hf hg
  obtain ⟨hne, hnull⟩ := h g f hg hf
  refine ⟨hne.symm, fun hexcludes => (hnull ?_).symm⟩
  rwa [T.excludes_comm]

namespace SpelledApart

theorem unique (hT : T.SpelledApart) (hf : T.Spells key f) (hg : T.Spells key g) : f = g := by
  by_contra hne
  exact hT.distinct f hf.1 g hg.1 hne key hf.2 hg.2

theorem ne_typeKey (hT : T.SpelledApart) (hf : T.Spells key f) : key ≠ Plain.typeKey := by
  rintro rfl
  exact hT.reserved f hf.1 hf.2

/-- Looking up a spelling finds its field. -/
theorem fieldNamed?_eq_some_iff (hT : T.SpelledApart) :
    T.fieldNamed? key = some f ↔ T.Spells key f :=
  ⟨fun h => ⟨mem_of_fieldNamed? h, by simpa using List.find?_some h⟩,
    fun h => hT.fieldNamed?_of_mem h.1 h.2⟩

end SpelledApart

end MessageType

/-- A type past the end of a schema has no fields to spell. -/
theorem Schema.SpelledApart.type (hspelled : S.SpelledApart) (t : TypeId) :
    (S.type t).SpelledApart := by
  by_cases ht : t < S.types.size
  · exact hspelled _ (by simp [Schema.type, ht])
  · have hempty : S.type t = .empty := by
      simp [Schema.type, ht]
    rw [hempty]
    exact ⟨fun f hf => absurd hf List.not_mem_nil, fun f hf => absurd hf List.not_mem_nil⟩

/-! ### What an entry does -/

/-- The write that a value other than null makes to its field, unless it is not read. -/
def Field.write? (S : Schema) (f : Field) (v : Plain) : Option (Message → Message) :=
  if f.repeated then
    (f.valuesOfPlain S v).toOption.map fun vs m => m.putItems S f.number vs
  else (f.valueOfPlain S v).toOption.map fun x m => m.put S f.number x

section

variable (hT : (S.type m.type).SpelledApart)

include hT

theorem takeEntries_null_of_spells (hf : (S.type m.type).Spells key f) (hnull : v.isNull)
    (es : List (String × Plain)) : takeEntries S m ((key, v) :: es) = takeEntries S m es :=
  takeEntries_null (hT.ne_typeKey hf) (hT.fieldNamed?_eq_some_iff.mpr hf) hnull es

theorem toOption_takeEntries_of_spells (hf : (S.type m.type).Spells key f)
    (hnull : v.isNull = false) :
    (takeEntries S m [(key, v)]).toOption = (f.write? S v).map (· m) := by
  have hkey := hT.ne_typeKey hf
  have hnamed := hT.fieldNamed?_eq_some_iff.mpr hf
  rw [Field.write?]
  cases hrepeated : f.repeated with
  | false =>
    rw [takeEntries_singular hkey hnamed hnull hrepeated, toOption_map, if_neg Bool.false_ne_true,
      Option.map_map]
    rfl
  | true =>
    rw [takeEntries_repeated hkey hnamed hnull hrepeated, toOption_map, if_pos rfl, Option.map_map]
    rfl

theorem toOption_takeEntries_of_unknown (hkey : key ≠ Plain.typeKey)
    (hunknown : ∀ f, ¬ (S.type m.type).Spells key f) :
    (takeEntries S m ((key, v) :: es)).toOption = none := by
  have hnamed : (S.type m.type).fieldNamed? key = none := by
    rw [Option.eq_none_iff_forall_not_mem]
    exact fun f hf => hunknown f (hT.fieldNamed?_eq_some_iff.mp hf)
  rw [takeEntries, if_neg hkey, hnamed]
  rfl

end

theorem toOption_takeEntries_cons (S : Schema) (m : Message) (a : String × Plain)
    (es : List (String × Plain)) : (takeEntries S m (a :: es)).toOption =
      (takeEntries S m [a]).toOption.bind fun m => (takeEntries S m es).toOption := by
  rw [takeEntries_cons, toOption_bind]

/-- A change of the message that looks at field `n` alone, and keeps the type and the order. -/
structure Message.WritesAt (S : Schema) (T : MessageType) (n : Nat) (write : Message → Message) :
    Prop where
  localAt : LocalAt S T n fun m => (write m, none)
  type : ∀ m, (write m).type = m.type
  ascending : ∀ m, FieldMap.Ascending m.fields → FieldMap.Ascending (write m).fields

namespace Message

theorem writes_put (hT : T.WellFormed types) (hf : f ∈ T.fields) (hsingular : f.repeated = false)
    (x : Value) : WritesAt S T f.number fun m => m.put S f.number x where
  localAt := by
    intro old?
    refine ⟨if !f.tracksPresence && x.isDefault then none else some x, T.rivals f, none,
      fun k hk => (hT.mem_rivals_iff (hT.field?_number hf) hsingular).mp hk,
      fun m hm _ => ⟨rfl, ?_⟩⟩
    subst hm
    simp only [put, hT.field?_number hf]
    exact m.changed_store S f x
  type m := m.type_put S f.number x
  ascending m hm := by
    rw [put]
    split
    · exact ascending_store hm _ x
    · exact hm

theorem writes_putItems (hT : T.WellFormed types) (hf : f ∈ T.fields) (vs : List Value) :
    WritesAt S T f.number fun m => m.putItems S f.number vs where
  localAt := by
    intro old?
    refine ⟨if vs.isEmpty then none else some (.list vs), [], none, by simp,
      fun m hm _ => ⟨rfl, ?_⟩⟩
    subst hm
    simp only [putItems, hT.field?_number hf, Option.isSome_some, ↓reduceIte]
    split
    · intro k
      rw [get?_clear, if_neg List.not_mem_nil]
    · exact m.changed_insert f.number _
  type m := m.type_putItems S f.number vs
  ascending m hm := by
    rw [putItems]
    split
    · exact hm.erase _
    · split
      · exact hm.insert _ _
      · exact hm

theorem writes_of_write? (hT : T.WellFormed types) (hf : f ∈ T.fields)
    {write : Message → Message} (h : f.write? S v = some write) : WritesAt S T f.number write := by
  rw [Field.write?] at h
  cases hrepeated : f.repeated with
  | false =>
    rw [hrepeated] at h
    obtain ⟨x, _, rfl⟩ := Option.map_eq_some_iff.mp h
    exact writes_put hT hf hrepeated x
  | true =>
    rw [hrepeated] at h
    obtain ⟨vs, _, rfl⟩ := Option.map_eq_some_iff.mp h
    exact writes_putItems hT hf vs

/-- Writes to fields that have nothing to do with each other may come in either order. -/
theorem WritesAt.comm {n k : Nat} {write write' : Message → Message} (h : WritesAt S T n write)
    (h' : WritesAt S T k write') (hapart : T.Apart n k) (hm : S.type m.type = T)
    (hascending : FieldMap.Ascending m.fields) : write' (write m) = write (write' m) := by
  have htype : (write' (write m)).type = (write (write' m)).type := by
    rw [h'.type, h.type, h.type, h'.type]
  obtain ⟨_, _, hget⟩ := h.localAt.comm h'.localAt hapart hm (by rw [h.type, hm])
    (by rw [h'.type, hm])
  exact ext_get? htype (h'.ascending _ (h.ascending m hascending))
    (h.ascending _ (h'.ascending m hascending)) hget

end Message

/-! ### The order of entries -/

section

variable {a b : String × Plain}

/-- An entry passes every message of its type by, fails on all of them, or makes one write. -/
inductive Message.Effect (S : Schema) (T : MessageType) (a : String × Plain) : Prop
  | pass (h : ∀ m, S.type m.type = T → (takeEntries S m [a]).toOption = some m)
  | fail (h : ∀ m, S.type m.type = T → (takeEntries S m [a]).toOption = none)
  | write {f : Field} {write : Message → Message} (hspells : T.Spells a.1 f)
      (hnull : a.2.isNull = false) (hwrites : WritesAt S T f.number write)
      (h : ∀ m, S.type m.type = T → (takeEntries S m [a]).toOption = some (write m))

theorem Message.effect (hT : T.WellFormed types) (hspelled : T.SpelledApart)
    (a : String × Plain) : Message.Effect S T a := by
  obtain ⟨key, v⟩ := a
  by_cases hkey : key = Plain.typeKey
  · subst hkey
    exact .pass fun m _ => congrArg Except.toOption (takeEntries_typeKey S m v [])
  by_cases hknown : ∃ f, T.Spells key f
  · obtain ⟨f, hf⟩ := hknown
    cases hnull : v.isNull with
    | true =>
      refine .pass fun m hm => ?_
      subst hm
      rw [takeEntries_null_of_spells hspelled hf hnull]
      rfl
    | false =>
      cases hwrite : f.write? S v with
      | none =>
        refine .fail fun m hm => ?_
        subst hm
        rw [toOption_takeEntries_of_spells hspelled hf hnull, hwrite]
        rfl
      | some write =>
        refine .write hf hnull (writes_of_write? hT hf.1 hwrite) fun m hm => ?_
        subst hm
        rw [toOption_takeEntries_of_spells hspelled hf hnull, hwrite]
        rfl
  · refine .fail fun m hm => ?_
    subst hm
    exact toOption_takeEntries_of_unknown hspelled hkey (not_exists.mp hknown)

theorem MessageType.Compatible.apart (hT : T.WellFormed types) (h : T.Compatible a b)
    (hf : T.Spells a.1 f) (hg : T.Spells b.1 g) (ha : a.2.isNull = false)
    (hb : b.2.isNull = false) : T.Apart f.number g.number := by
  obtain ⟨hne, hnull⟩ := h f g hf hg
  refine ⟨fun heq => hne ?_, ?_⟩
  · exact List.inj_on_of_nodup_map hT.distinct hf.1 hg.1 heq
  · by_contra hexcludes
    simpa [ha, hb] using hnull (by simpa using hexcludes)

/-- What one entry gives for all messages of its type, it gives after another entry. -/
theorem toOption_takeEntries_pair {r : Option Message → Option Message}
    (ha : ∀ m', S.type m'.type = S.type m.type → (takeEntries S m' [a]).toOption = r (some m'))
    (hr : r none = none) :
    (takeEntries S m [b, a]).toOption = r (takeEntries S m [b]).toOption := by
  rw [toOption_takeEntries_cons]
  cases hb : takeEntries S m [b] with
  | error e => exact hr.symm
  | ok m' => exact ha m' (congrArg S.type (type_takeEntries hb))

/-- Two entries of a tidy object may change places. -/
theorem takeEntries_swap (hS : ∀ t, (S.type t).WellFormed types) (hspelled : S.SpelledApart)
    (hcompatible : (S.type m.type).Compatible a b) (hm : FieldMap.Ascending m.fields) :
    (takeEntries S m [a, b]).toOption = (takeEntries S m [b, a]).toOption := by
  have hT := hS m.type
  have heffect := Message.effect (S := S) hT (hspelled.type m.type)
  cases heffect a with
  | pass ha =>
    rw [toOption_takeEntries_pair (r := id) ha rfl, toOption_takeEntries_cons, ha m rfl]
    rfl
  | fail ha =>
    rw [toOption_takeEntries_pair (r := fun _ => none) ha rfl, toOption_takeEntries_cons, ha m rfl]
    rfl
  | write hf hnull hwrites ha =>
    cases heffect b with
    | pass hb =>
      rw [toOption_takeEntries_pair (r := id) hb rfl, toOption_takeEntries_cons S m b, hb m rfl]
      rfl
    | fail hb =>
      rw [toOption_takeEntries_pair (r := fun _ => none) hb rfl, toOption_takeEntries_cons S m b,
        hb m rfl]
      rfl
    | write hg hnull' hwrites' hb =>
      have hapart := hcompatible.apart hT hf hg hnull hnull'
      rw [toOption_takeEntries_pair (r := Option.map _) hb rfl,
        toOption_takeEntries_pair (r := Option.map _) ha rfl, ha m rfl, hb m rfl, Option.map_some,
        Option.map_some, hwrites.comm hwrites' hapart rfl hm]

theorem ascending_takeEntries (hS : ∀ t, (S.type t).WellFormed types) (hspelled : S.SpelledApart)
    {m' : Message} (hm : FieldMap.Ascending m.fields) (h : takeEntries S m [a] = .ok m') :
    FieldMap.Ascending m'.fields := by
  have hresult := toOption_eq_some_iff.mpr h
  cases Message.effect (S := S) (hS m.type) (hspelled.type m.type) a with
  | pass ha =>
    obtain rfl := Option.some.inj ((ha m rfl).symm.trans hresult)
    exact hm
  | fail ha => cases (ha m rfl).symm.trans hresult
  | write _ _ hwrites ha =>
    obtain rfl := Option.some.inj ((ha m rfl).symm.trans hresult)
    exact hwrites.ascending m hm

/-- The induction is on the exchanges that make up the reordering. -/
theorem toOption_takeEntries_of_perm (hS : ∀ t, (S.type t).WellFormed types)
    (hspelled : S.SpelledApart) (h : es.Perm es')
    (hcompatible : es.Pairwise (S.type m.type).Compatible) (hm : FieldMap.Ascending m.fields) :
    (takeEntries S m es).toOption = (takeEntries S m es').toOption := by
  induction h generalizing m with
  | nil => rfl
  | @cons a front back _ ih =>
    rw [toOption_takeEntries_cons S m a front, toOption_takeEntries_cons S m a back]
    cases ha : takeEntries S m [a] with
    | error e => rfl
    | ok m' =>
      have hrest := (List.pairwise_cons.mp hcompatible).2
      rw [← type_takeEntries ha] at hrest
      exact ih hrest (ascending_takeEntries hS hspelled hm ha)
  | swap a b es =>
    have hpair := (List.pairwise_cons.mp hcompatible).1 a List.mem_cons_self
    have hswap := takeEntries_swap hS hspelled hpair hm
    have hfront := takeEntries_append S m [b, a] es
    have hback := takeEntries_append S m [a, b] es
    rw [List.cons_append, List.singleton_append] at hfront hback
    rw [hfront, hback, toOption_bind, toOption_bind, hswap]
  | trans h _ ih ih' =>
    have hmiddle := (h.pairwise_iff MessageType.Compatible.symm).mp hcompatible
    exact (ih hcompatible hm).trans (ih' hmiddle hm)

end

/-! ### Tidy objects -/

namespace Plain

theorem tidy_object_iff : Tidy S t (.object es) ↔ es.Pairwise (S.type t).Compatible ∧
    ∀ a ∈ es, ∀ f, (S.type t).Spells a.1 f → ∀ u ∈ f.place, Tidy S u a.2 := by
  constructor
  · rintro ⟨hcompatible, hentries, _⟩
    exact ⟨hcompatible es rfl, hentries es rfl⟩
  · rintro ⟨hcompatible, hentries⟩
    refine ⟨fun es h => ?_, fun es h => ?_, nofun⟩ <;> cases h
    · exact hcompatible
    · exact hentries

theorem tidy_array_iff {items : List Plain} :
    Tidy S t (.array items) ↔ ∀ w ∈ items, Tidy S t w := by
  constructor
  · rintro ⟨_, _, hitems⟩
    exact hitems items rfl
  · intro hitems
    refine ⟨nofun, nofun, fun items h => ?_⟩
    cases h
    exact hitems

theorem tidy_null : Tidy S t .null := ⟨nofun, nofun, nofun⟩

theorem tidy_cons_iff {a : String × Plain} : Tidy S t (.object (a :: es)) ↔
    (∀ b ∈ es, (S.type t).Compatible a b) ∧
      (∀ f, (S.type t).Spells a.1 f → ∀ u ∈ f.place, Tidy S u a.2) ∧ Tidy S t (.object es) := by
  rw [tidy_object_iff, tidy_object_iff, List.pairwise_cons, List.forall_mem_cons]
  tauto

/-- An entry whose key spells no field does not bear on tidiness. -/
theorem tidy_cons_of_unknown {a : String × Plain} (h : ∀ f, ¬ (S.type t).Spells a.1 f) :
    Tidy S t (.object (a :: es)) ↔ Tidy S t (.object es) := by
  rw [tidy_cons_iff]
  exact ⟨fun h => h.2.2, fun htidy =>
    ⟨fun b _ f g hf => absurd hf (h f), fun f hf => absurd hf (h f), htidy⟩⟩

/-- An entry bears on tidiness by its field, by whether it is null, and by what stands inside. -/
theorem tidy_cons_congr (hspelled : S.SpelledApart) (hf : (S.type t).Spells key f)
    (hf' : (S.type t).Spells key' f) (hnull : v.isNull = w.isNull)
    (hinside : ∀ u ∈ f.place, Tidy S u v ↔ Tidy S u w) :
    Tidy S t (.object ((key, v) :: es)) ↔ Tidy S t (.object ((key', w) :: es)) := by
  have hT := hspelled.type t
  have hspells (g : Field) : (S.type t).Spells key g ↔ (S.type t).Spells key' g := by
    constructor <;> intro hg
    · rwa [← hT.unique hf hg]
    · rwa [← hT.unique hf' hg]
  have hplace : (∀ g, (S.type t).Spells key' g → ∀ u ∈ g.place, Tidy S u v) ↔
      ∀ g, (S.type t).Spells key' g → ∀ u ∈ g.place, Tidy S u w := by
    refine forall₂_congr fun g hg => ?_
    rw [← hT.unique hf' hg]
    exact forall₂_congr hinside
  simp only [tidy_cons_iff, MessageType.Compatible, hspells, hnull, hplace]

namespace Rewritten

theorem isNull_eq (h : Rewritten S p v w) : v.isNull = w.isNull := by
  induction h with
  | symm _ ih => exact ih.symm
  | trans _ _ ih ih' => exact ih.trans ih'
  | _ => rfl

/-- What may be done to an object leaves it tidy or untidy. -/
theorem tidy_iff (hspelled : S.SpelledApart) (h : Rewritten S p v w) :
    ∀ t ∈ p, Tidy S t v ↔ Tidy S t w := by
  induction h with
  | refl => exact fun _ _ => Iff.rfl
  | symm _ ih => exact fun t ht => (ih t ht).symm
  | trans _ _ ih ih' => exact fun t ht => (ih t ht).trans (ih' t ht)
  | reorder hperm =>
    intro t _
    rw [tidy_object_iff, tidy_object_iff, hperm.pairwise_iff MessageType.Compatible.symm]
    simp only [hperm.mem_iff]
  | respell hf hf' =>
    rintro t ⟨⟩
    exact tidy_cons_congr hspelled hf hf' rfl fun _ _ => Iff.rfl
  | typeName =>
    intro t _
    exact (tidy_cons_of_unknown fun f hf => (hspelled.type t).ne_typeKey hf rfl).symm
  | null hf hothers =>
    rintro t ⟨⟩
    rw [tidy_cons_iff]
    refine ⟨fun htidy => ⟨fun b hb g g' hg hg' => ⟨?_, fun _ => .inl rfl⟩,
      fun _ _ _ _ => tidy_null, htidy⟩, fun htidy => htidy.2.2⟩
    -- no other entry names the field
    rintro rfl
    rw [(hspelled.type _).unique hg hf] at hg'
    exact hothers b hb hg'
  | field hf h ih =>
    rintro t ⟨⟩
    exact tidy_cons_congr hspelled hf hf h.isNull_eq ih
  | other hunknown _ _ =>
    intro t ht
    rw [tidy_cons_of_unknown (hunknown t ht), tidy_cons_of_unknown (hunknown t ht)]
  | element _ ih =>
    intro t ht
    simp only [tidy_array_iff, List.forall_mem_append, List.forall_mem_cons, ih t ht]

end Rewritten

end Plain

/-! ### Values that are read alike -/

/-- A field of the place reads the same from both values, if it reads anything. -/
structure Plain.ReadAlike (S : Schema) (p : Option TypeId) (v w : Plain) : Prop where
  isNull : v.isNull = w.isNull
  value : ∀ f : Field, f.place = p →
    (f.valueOfPlain S v).toOption = (f.valueOfPlain S w).toOption
  values : ∀ f : Field, f.place = p →
    (f.valuesOfPlain S v).toOption = (f.valuesOfPlain S w).toOption

/-- No scalar is read from an object or an array. -/
theorem Scalar.toOption_ofPlain_container (s : Scalar) (name : String) :
    (∀ es, (s.ofPlain name (.object es)).toOption = none) ∧
      ∀ items, (s.ofPlain name (.array items)).toOption = none := by
  cases s <;> exact ⟨fun _ => rfl, fun _ => rfl⟩

theorem Field.toOption_valuesOfItems_cons (S : Schema) (f : Field) (v : Plain)
    (items : List Plain) : (f.valuesOfItems S (v :: items)).toOption =
      (f.valueOfPlain S v).toOption.bind fun x =>
        (f.valuesOfItems S items).toOption.map (x :: ·) := by
  rw [valuesOfItems]
  cases f.valueOfPlain S v with
  | error e => rfl
  | ok x => exact toOption_map ..

namespace Plain.ReadAlike

theorem refl : ReadAlike S p v v := ⟨rfl, fun _ _ => rfl, fun _ _ => rfl⟩

theorem symm (h : ReadAlike S p v w) : ReadAlike S p w v :=
  ⟨h.isNull.symm, fun f hf => (h.value f hf).symm, fun f hf => (h.values f hf).symm⟩

theorem trans (h : ReadAlike S p u v) (h' : ReadAlike S p v w) : ReadAlike S p u w :=
  ⟨h.isNull.trans h'.isNull, fun f hf => (h.value f hf).trans (h'.value f hf),
    fun f hf => (h.values f hf).trans (h'.values f hf)⟩

theorem object (h : ∀ t ∈ p, (takeEntries S (.empty t) es).toOption =
    (takeEntries S (.empty t) es').toOption) : ReadAlike S p (.object es) (.object es') where
  isNull := rfl
  value f hf := by
    cases hkind : f.kind with
    | scalar s =>
      have hnone := (s.toOption_ofPlain_container f.name).1
      rw [Field.valueOfPlain_scalar hkind, Field.valueOfPlain_scalar hkind, hnone, hnone]
    | message t =>
      rw [Field.valueOfPlain_message hkind, Field.valueOfPlain_message hkind]
      have hplace : t ∈ p := hf ▸ Field.mem_place_iff.mpr hkind
      exact (toOption_map ..).trans ((congrArg _ (h t hplace)).trans (toOption_map ..).symm)
  values _ _ := rfl

theorem element {front back : List Plain} (h : ReadAlike S p v w) :
    ReadAlike S p (.array (front ++ v :: back)) (.array (front ++ w :: back)) where
  isNull := rfl
  value f _ := by
    cases hkind : f.kind with
    | scalar s =>
      have hnone := (s.toOption_ofPlain_container f.name).2
      rw [Field.valueOfPlain_scalar hkind, Field.valueOfPlain_scalar hkind, hnone, hnone]
    | message t =>
      rw [Field.valueOfPlain_message hkind, Field.valueOfPlain_message hkind]
      rfl
  values f hf := by
    rw [Field.valuesOfPlain, Field.valuesOfPlain]
    induction front with
    | nil =>
      simp only [List.nil_append, Field.toOption_valuesOfItems_cons, h.value f hf]
    | cons x front ih =>
      simp only [List.cons_append, Field.toOption_valuesOfItems_cons, ih]

end Plain.ReadAlike

/-- A value at the front of an object may give way to one that is read alike. -/
theorem toOption_takeEntries_congr (hspelled : (S.type m.type).SpelledApart)
    (hf : (S.type m.type).Spells key f) (hf' : (S.type m.type).Spells key' f)
    (h : Plain.ReadAlike S f.place v w) (es : List (String × Plain)) :
    (takeEntries S m ((key, v) :: es)).toOption = (takeEntries S m ((key', w) :: es)).toOption := by
  cases hnull : v.isNull with
  | true =>
    rw [takeEntries_null_of_spells hspelled hf hnull,
      takeEntries_null_of_spells hspelled hf' (h.isNull ▸ hnull)]
  | false =>
    have hwrite : f.write? S v = f.write? S w := by
      rw [Field.write?, Field.write?, h.value f rfl, h.values f rfl]
    rw [toOption_takeEntries_cons, toOption_takeEntries_cons S m (key', w),
      toOption_takeEntries_of_spells hspelled hf hnull,
      toOption_takeEntries_of_spells hspelled hf' (h.isNull ▸ hnull), hwrite]

/-- The induction is on the rewriting: what it does to an object it does to the objects inside. -/
theorem Plain.Rewritten.readAlike (hS : ∀ t, (S.type t).WellFormed types)
    (hspelled : S.SpelledApart) (h : Rewritten S p v w) (htidy : ∀ t ∈ p, Tidy S t v) :
    ReadAlike S p v w := by
  induction h with
  | refl => exact .refl
  | symm h ih => exact (ih fun t ht => (h.tidy_iff hspelled t ht).mpr (htidy t ht)).symm
  | trans h _ ih ih' =>
    exact (ih htidy).trans (ih' fun t ht => (h.tidy_iff hspelled t ht).mp (htidy t ht))
  | reorder hperm =>
    refine .object fun t ht => ?_
    have hcompatible := (tidy_object_iff.mp (htidy t ht)).1
    exact toOption_takeEntries_of_perm hS hspelled hperm hcompatible .nil
  | @respell t _ _ _ _ _ hf hf' =>
    refine .object fun u hu => ?_
    cases hu
    exact toOption_takeEntries_congr (hspelled.type t) hf hf' .refl _
  | typeName => exact .object fun t _ => by rw [takeEntries_typeKey]
  | @null t _ _ _ hf _ =>
    refine .object fun u hu => ?_
    cases hu
    rw [takeEntries_null_of_spells (hspelled.type t) hf rfl]
  | @field t _ _ _ _ _ hf _ ih =>
    refine .object fun u hu => ?_
    cases hu
    have hinside := (tidy_cons_iff.mp (htidy t rfl)).2.1 _ hf
    exact toOption_takeEntries_congr (hspelled.type t) hf hf (ih hinside) _
  | @other _ key _ _ _ hunknown _ _ =>
    refine .object fun t ht => ?_
    by_cases hkey : key = typeKey
    · rw [hkey, takeEntries_typeKey, takeEntries_typeKey]
    · have hT := hspelled.type t
      rw [toOption_takeEntries_of_unknown (m := .empty t) hT hkey (hunknown t ht),
        toOption_takeEntries_of_unknown (m := .empty t) hT hkey (hunknown t ht)]
  | element _ ih => exact .element (ih fun t ht =>
      tidy_array_iff.mp (htidy t ht) _ (List.mem_append_right _ List.mem_cons_self))

/-- In plain input neither the order of keys nor their spelling matters, and type names and nulls
say nothing: tidy objects that differ in nothing else are read as the same message, or neither is
read. -/
theorem plain_form_rewritten (hS : ∀ t, (S.type t).WellFormed types) (hspelled : S.SpelledApart)
    (htidy : v.Tidy S t) (h : Plain.Rewritten S (some t) v w) (m : Message) :
    Message.ofPlain S t v = .ok m ↔ Message.ofPlain S t w = .ok m := by
  have hplace : ∀ u ∈ some t, v.Tidy S u := by
    rintro u ⟨⟩
    exact htidy
  have halike := (h.readAlike hS hspelled hplace).value (.one 1 "" (.message t)) rfl
  have hkind : (Field.one 1 "" (.message t)).kind = .message t := rfl
  rw [Field.valueOfPlain_message hkind, Field.valueOfPlain_message hkind] at halike
  have hsame := Option.map_injective (fun _ _ => Value.message.inj)
    ((toOption_map ..).symm.trans (halike.trans (toOption_map ..)))
  rw [← toOption_eq_some_iff, ← toOption_eq_some_iff, hsame]

section

open Vision

/-- Of the group one member is null. -/
def purgeEntries : List (String × Plain) :=
  [("deleteOrphanProducts", .null),
    ("productSetPurgeConfig", .object [("productSetId", .string "s")]), ("parent", .string "p")]

/-- The same in another order, with declared names for keys and with the type's name inside. -/
def purgeRewritten : List (String × Plain) :=
  [("parent", .string "p"), ("product_set_purge_config",
    .object [(Plain.typeKey, .string "c"), ("product_set_id", .string "s")]), ("force", .null)]

theorem tidy_purgeEntries :
    Plain.Tidy schema TypeName.purgeProductsRequest.id (.object purgeEntries) := by
  have hconfig : ∀ f ∈ (schema.type TypeName.purgeProductsRequest.id).fields,
      "productSetPurgeConfig" ∈ f.spellings →
        f.place = some TypeName.productSetPurgeConfig.id := by
    decide +kernel
  refine Plain.tidy_object_iff.mpr ⟨by decide +kernel, ?_⟩
  simp only [purgeEntries, List.forall_mem_cons]
  refine ⟨fun _ _ _ _ => Plain.tidy_null, fun f hf u hu => ?_,
    fun _ _ _ _ => ⟨nofun, nofun, nofun⟩, List.forall_mem_nil _⟩
  rw [hconfig f hf.1 hf.2] at hu
  cases hu
  refine Plain.tidy_object_iff.mpr ⟨List.pairwise_singleton .., ?_⟩
  simp only [List.forall_mem_singleton]
  exact fun _ _ _ _ => ⟨nofun, nofun, nofun⟩

theorem rewritten_purgeEntries :
    Plain.Rewritten schema (some TypeName.purgeProductsRequest.id) (.object purgeEntries)
      (.object purgeRewritten) := by
  have horphans : (schema.type TypeName.purgeProductsRequest.id).Spells "deleteOrphanProducts"
      (.choice 3 "delete_orphan_products" .bool 0) := by
    decide +kernel
  have hforce : (schema.type TypeName.purgeProductsRequest.id).Spells "force"
      (.one 4 "force" .bool) := by
    decide +kernel
  let config : Field :=
    .choice 2 "product_set_purge_config" (.message TypeName.productSetPurgeConfig.id) 0
  have hconfig : (schema.type TypeName.purgeProductsRequest.id).Spells "productSetPurgeConfig"
        config ∧
      (schema.type TypeName.purgeProductsRequest.id).Spells "product_set_purge_config" config := by
    decide +kernel
  have hid : (schema.type TypeName.productSetPurgeConfig.id).Spells "productSetId"
        (.one 1 "product_set_id" .string) ∧
      (schema.type TypeName.productSetPurgeConfig.id).Spells "product_set_id"
        (.one 1 "product_set_id" .string) := by
    decide +kernel
  have hinside : Plain.Rewritten schema config.place (.object [("productSetId", .string "s")])
      (.object [(Plain.typeKey, .string "c"), ("product_set_id", .string "s")]) :=
    .trans (.respell hid.1 hid.2) .typeName
  -- one null goes, the object is written anew inside and gets another key, and another null comes
  refine .trans (.symm (.null horphans (by decide +kernel))) ?_
  refine .trans (.field hconfig.1 hinside) ?_
  refine .trans (.respell hconfig.1 hconfig.2) ?_
  refine .trans (.null hforce (by decide +kernel)) ?_
  exact .reorder (List.reverse_perm _).symm

theorem purge_plain_form_rewritten :
    Plain.Tidy schema TypeName.purgeProductsRequest.id (.object purgeEntries) ∧
      Plain.Rewritten schema (some TypeName.purgeProductsRequest.id) (.object purgeEntries)
        (.object purgeRewritten) ∧
      Message.ofPlain schema TypeName.purgeProductsRequest.id (.object purgeRewritten) =
        .ok ⟨TypeName.purgeProductsRequest.id, [(1, .string "p"),
          (2, .message ⟨TypeName.productSetPurgeConfig.id, [(1, .string "s")]⟩)]⟩ :=
  ⟨tidy_purgeEntries, rewritten_purgeEntries, (plain_form_rewritten schema_wellFormed.type
    schema_spelledApart tidy_purgeEntries rewritten_purgeEntries _).mp rfl⟩

end

end Protowire
