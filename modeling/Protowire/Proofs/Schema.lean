import Mathlib
import Protowire.Schema

/-!
Well-formed schemas: what is promised of the declared types. Field numbers are distinct and in the
range of the wire format, a oneof group lists exactly the singular fields that name it, the type of
a message field is one of the schema's, and no two types share a full name. Nothing is promised of
field names or of the order of fields.
-/

namespace Protowire

structure MessageType.WellFormed (types : Nat) (T : MessageType) : Prop where
  distinct : (T.fields.map (·.number)).Nodup
  legal : ∀ f ∈ T.fields, minFieldNumber ≤ f.number ∧ f.number ≤ maxFieldNumber
  members : ∀ i group, T.oneof? i = some group → ∀ n,
    n ∈ group.members ↔ ∃ f ∈ T.fields, f.number = n ∧ f.repeated = false ∧ f.oneof = some i
  references : ∀ f ∈ T.fields, ∀ u, f.kind = .message u → u < types

structure Schema.WellFormed (S : Schema) : Prop where
  names : (S.types.toList.map (·.fullName)).Nodup
  types : ∀ T ∈ S.types.toList, T.WellFormed S.types.size

/-! ### Deciding it -/

/-- The numbers of the singular fields that name a oneof group. -/
def MessageType.naming (T : MessageType) (i : Nat) : List Nat :=
  (T.fields.filter fun f => !f.repeated && f.oneof = some i).map (·.number)

theorem MessageType.mem_naming {T : MessageType} {i n : Nat} :
    n ∈ T.naming i ↔
      ∃ f ∈ T.fields, f.number = n ∧ f.repeated = false ∧ f.oneof = some i := by
  simp only [naming, List.mem_map, List.mem_filter, Bool.and_eq_true, Bool.not_eq_true',
    decide_eq_true_eq]
  constructor
  · rintro ⟨f, ⟨hf, hr, ho⟩, rfl⟩
    exact ⟨f, hf, rfl, hr, ho⟩
  · rintro ⟨f, hf, rfl, hr, ho⟩
    exact ⟨f, ⟨hf, hr, ho⟩, rfl⟩

theorem MessageType.wellFormed_iff {types : Nat} {T : MessageType} :
    T.WellFormed types ↔ (T.fields.map (·.number)).Nodup ∧
      (∀ f ∈ T.fields, minFieldNumber ≤ f.number ∧ f.number ≤ maxFieldNumber) ∧
      (∀ p ∈ T.oneofs.zipIdx, p.1.members ⊆ T.naming p.2 ∧ T.naming p.2 ⊆ p.1.members) ∧
      ∀ f ∈ T.fields, ∀ u ∈ (match f.kind with | .message u => some u | .scalar _ => none),
        u < types := by
  have hmembers : (∀ i group, T.oneof? i = some group → ∀ n, n ∈ group.members ↔
      ∃ f ∈ T.fields, f.number = n ∧ f.repeated = false ∧ f.oneof = some i) ↔
      ∀ p ∈ T.oneofs.zipIdx, p.1.members ⊆ T.naming p.2 ∧ T.naming p.2 ⊆ p.1.members := by
    constructor
    · intro h p hp
      have hget : T.oneof? p.2 = some p.1 := List.mem_zipIdx_iff_getElem?.mp hp
      exact ⟨fun n hn => mem_naming.mpr ((h _ _ hget n).mp hn),
        fun n hn => (h _ _ hget n).mpr (mem_naming.mp hn)⟩
    · intro h i group hget n
      have hp : (group, i) ∈ T.oneofs.zipIdx := List.mem_zipIdx_iff_getElem?.mpr hget
      rw [← mem_naming]
      exact ⟨fun hn => (h _ hp).1 hn, fun hn => (h _ hp).2 hn⟩
  constructor
  · rintro ⟨h₁, h₂, h₃, h₄⟩
    refine ⟨h₁, h₂, hmembers.mp h₃, fun f hf u hu => ?_⟩
    cases hk : f.kind with
    | scalar s => simp [hk] at hu
    | message t =>
      simp only [hk, Option.mem_def, Option.some.injEq] at hu
      exact hu ▸ h₄ f hf t hk
  · rintro ⟨h₁, h₂, h₃, h₄⟩
    exact ⟨h₁, h₂, hmembers.mpr h₃, fun f hf u hk => h₄ f hf u (by simp [hk])⟩

instance (types : Nat) (T : MessageType) : Decidable (T.WellFormed types) :=
  decidable_of_iff _ MessageType.wellFormed_iff.symm

instance (S : Schema) : Decidable S.WellFormed :=
  decidable_of_iff ((S.types.toList.map (·.fullName)).Nodup ∧
    ∀ T ∈ S.types.toList, T.WellFormed S.types.size)
    ⟨fun ⟨h₁, h₂⟩ => ⟨h₁, h₂⟩, fun ⟨h₁, h₂⟩ => ⟨h₁, h₂⟩⟩

/-- Two different members of one oneof group exclude each other. -/
def MessageType.excludes (T : MessageType) (n k : Nat) : Bool :=
  n ≠ k && T.oneofs.any fun group => n ∈ group.members && k ∈ group.members

/-! ### What follows -/

theorem MessageType.wellFormed_empty (types : Nat) : empty.WellFormed types :=
  ⟨by simp [empty], by simp [empty], by simp [empty, oneof?], by simp [empty]⟩

theorem MessageType.excludes_iff {T : MessageType} {n k : Nat} :
    T.excludes n k ↔ n ≠ k ∧ ∃ group ∈ T.oneofs, n ∈ group.members ∧ k ∈ group.members := by
  simp [excludes]

theorem MessageType.excludes_comm (T : MessageType) (n k : Nat) :
    T.excludes n k = T.excludes k n := by
  rw [Bool.eq_iff_iff, excludes_iff, excludes_iff]
  tauto

namespace MessageType.WellFormed

variable {types : Nat} {T : MessageType} {f : Field}

theorem field?_number (hT : T.WellFormed types) (hf : f ∈ T.fields) :
    T.field? f.number = some f := by
  obtain ⟨g, hg⟩ : ∃ g, T.field? f.number = some g := by
    rw [← Option.isSome_iff_exists, MessageType.field?, List.find?_isSome]
    exact ⟨f, hf, by simp⟩
  rw [hg]
  have hinj := List.inj_on_of_nodup_map hT.distinct
  exact congrArg some (hinj (mem_of_field? hg) hf (number_of_field? hg))

/-- A number is a member of no group but the one that its field names. -/
theorem mem_members_iff (hT : T.WellFormed types) {i n : Nat} {group : OneofGroup}
    (hf : T.field? n = some f) (hi : T.oneof? i = some group) :
    n ∈ group.members ↔ f.repeated = false ∧ f.oneof = some i := by
  rw [hT.members i group hi]
  constructor
  · rintro ⟨g, hg, rfl, hr, ho⟩
    rw [hT.field?_number hg] at hf
    cases hf
    exact ⟨hr, ho⟩
  · rintro ⟨hr, ho⟩
    exact ⟨f, mem_of_field? hf, number_of_field? hf, hr, ho⟩

/-- Setting a member of a group unsets all the others. -/
theorem mem_rivals (hT : T.WellFormed types) {n k : Nat} {group : OneofGroup}
    (hf : T.field? n = some f) (hgroup : group ∈ T.oneofs) (hn : n ∈ group.members)
    (hk : k ∈ group.members) (hne : k ≠ n) : k ∈ T.rivals f := by
  obtain ⟨i, hi⟩ := List.mem_iff_getElem?.mp hgroup
  obtain ⟨_, ho⟩ := (hT.mem_members_iff hf hi).mp hn
  have hgroup' : T.oneof? i = some group := hi
  simp only [rivals, ho, Option.bind_some, hgroup', List.mem_filter, decide_eq_true_eq]
  exact ⟨hk, by rwa [number_of_field? hf]⟩

/-- Rivals are members of one group. -/
theorem exists_group_of_mem_rivals (hT : T.WellFormed types) {n k : Nat}
    (hf : T.field? n = some f) (hr : f.repeated = false) (hk : k ∈ T.rivals f) :
    k ≠ n ∧ ∃ group ∈ T.oneofs, n ∈ group.members ∧ k ∈ group.members := by
  unfold rivals at hk
  split at hk
  · rename_i group hgroup
    simp only [List.mem_filter, decide_eq_true_eq] at hk
    obtain ⟨i, ho, hi⟩ := Option.bind_eq_some_iff.mp hgroup
    refine ⟨number_of_field? hf ▸ hk.2, group, List.mem_of_getElem? hi, ?_, hk.1⟩
    exact (hT.mem_members_iff hf hi).mpr ⟨hr, ho⟩
  · cases hk

/-- For a singular field, what it excludes is what setting it unsets. -/
theorem mem_rivals_iff {n k : Nat} (hT : T.WellFormed types) (hf : T.field? n = some f)
    (hsingular : f.repeated = false) : k ∈ T.rivals f ↔ T.excludes n k := by
  rw [excludes_iff]
  constructor
  · intro hk
    obtain ⟨hne, hgroup⟩ := hT.exists_group_of_mem_rivals hf hsingular hk
    exact ⟨hne.symm, hgroup⟩
  · rintro ⟨hne, group, hgroup, hn, hk⟩
    exact hT.mem_rivals hf hgroup hn hk hne.symm

/-- A repeated field is in no group, so it excludes nothing. -/
theorem excludes_of_repeated {n : Nat} (hT : T.WellFormed types) (hf : T.field? n = some f)
    (hrepeated : f.repeated) (k : Nat) : T.excludes n k = false := by
  by_contra h
  obtain ⟨_, group, hgroup, hn, _⟩ := excludes_iff.mp (by simpa using h)
  obtain ⟨i, hi⟩ := List.mem_iff_getElem?.mp hgroup
  have := ((hT.mem_members_iff hf hi).mp hn).1
  simp [hrepeated] at this

end MessageType.WellFormed

namespace Schema.WellFormed

variable {S : Schema}

/-- Past the end of a schema stands a type without fields, which is well formed too. -/
theorem type (hS : S.WellFormed) (t : TypeId) : (S.type t).WellFormed S.types.size := by
  by_cases ht : t < S.types.size
  · have hmem : S.type t ∈ S.types.toList := by
      simp [Schema.type, ht]
    exact hS.types _ hmem
  · have hempty : S.type t = .empty := by
      simp [Schema.type, ht]
    rw [hempty]
    exact MessageType.wellFormed_empty _

theorem eq_of_fullName_eq (hS : S.WellFormed) {t u : TypeId} (ht : t < S.types.size)
    (hu : u < S.types.size) (h : S.fullName t = S.fullName u) : t = u := by
  have hget {i : TypeId} (hi : i < S.types.size) :
      (S.types.toList.map (·.fullName))[i]? = some (S.fullName i) := by
    simp [Schema.fullName, Schema.type, hi]
  have ht' : t < (S.types.toList.map (·.fullName)).length := by simpa using ht
  refine (List.getElem?_inj ht' hS.names).mp ?_
  rw [hget ht, hget hu, h]

end Schema.WellFormed

end Protowire
