import Protowire.Proofs.Message.Local
import Protowire.Proofs.Vision.Schema

/-!
The order of records is irrelevant across independent fields. As long as the records of one field
keep their order, and so do those of the members of one oneof group, the records of a message may be
rearranged without a change to what they merge into. A rearrangement is undone record by record: the
record that came first is found behind records that have nothing to do with it, and passes them one
after the other.
-/

namespace Protowire

open Reader Wire

/-- Records with their numbers, one behind the other. -/
def recordBytes (rs : List (Nat × List UInt8)) : List UInt8 := rs.flatMap (·.2)

@[simp] theorem recordBytes_nil : recordBytes [] = [] := rfl

@[simp] theorem recordBytes_cons (r : Nat × List UInt8) (rs : List (Nat × List UInt8)) :
    recordBytes (r :: rs) = r.2 ++ recordBytes rs := rfl

@[simp] theorem recordBytes_append (u v : List (Nat × List UInt8)) :
    recordBytes (u ++ v) = recordBytes u ++ recordBytes v := List.flatMap_append

/-- The same records in an order in which those of one field stand as before, and so do those of the
fields of one oneof group. -/
structure Rearranged (T : MessageType) (rs rs' : List (Nat × List UInt8)) : Prop where
  perm : rs.Perm rs'
  fields : ∀ n, rs.filter (·.1 = n) = rs'.filter (·.1 = n)
  groups : ∀ group ∈ T.oneofs,
    rs.filter (·.1 ∈ group.members) = rs'.filter (·.1 ∈ group.members)

/-- Complete records, one step each, turn a message into another. -/
inductive Steps (S : Schema) (nesting : Nesting) :
    List (Nat × List UInt8) → Message → Message → Prop
  | nil {m : Message} : Steps S nesting [] m m
  | cons {n : Nat} {form : List UInt8} {r : Record} {rs : List (Nat × List UInt8)}
    {m m' m'' : Message} (head : Step S nesting n form r m m') (tail : Steps S nesting rs m' m'') :
    Steps S nesting ((n, form) :: rs) m m''

variable {S : Schema} {T : MessageType} {types : Nat} {nesting : Nesting} {m m' : Message}
  {rs rs' : List (Nat × List UInt8)}

/-! ### Rearranging -/

/-- Where a filter gives the same of two lists, it also does so without their element `a`, provided
that, if `a` passes, nothing in front of it does. -/
theorem filter_eq_of_filter_cons_eq {α : Type} {p : α → Bool} {a : α} {xs u v : List α}
    (hfront : p a → ∀ x ∈ u, ¬p x) (h : (a :: xs).filter p = (u ++ a :: v).filter p) :
    xs.filter p = (u ++ v).filter p := by
  rw [List.filter_append, List.filter_cons, List.filter_cons] at h
  rw [List.filter_append]
  by_cases ha : p a
  · rw [List.filter_eq_nil_iff.mpr (hfront ha)] at h ⊢
    simpa [ha] using h
  · simpa [ha] using h

/-- Only the numbers that do occur need to be looked at. -/
theorem rearranged_iff : Rearranged T rs rs' ↔ rs.Perm rs' ∧
    (∀ p ∈ rs, rs.filter (·.1 = p.1) = rs'.filter (·.1 = p.1)) ∧
      ∀ group ∈ T.oneofs,
        rs.filter (·.1 ∈ group.members) = rs'.filter (·.1 ∈ group.members) := by
  refine ⟨fun h => ⟨h.perm, fun p _ => h.fields p.1, h.groups⟩, ?_⟩
  rintro ⟨hperm, hfields, hgroups⟩
  refine ⟨hperm, fun n => ?_, hgroups⟩
  by_cases hn : ∃ p ∈ rs, p.1 = n
  · obtain ⟨p, hp, rfl⟩ := hn
    exact hfields p hp
  · have hnil : rs.filter (·.1 = n) = [] :=
      List.filter_eq_nil_iff.mpr fun p hp => by simpa using fun h => hn ⟨p, hp, h⟩
    have hperm' := hperm.filter (·.1 = n)
    rw [hnil] at hperm' ⊢
    exact hperm'.nil_eq

instance (T : MessageType) (rs rs' : List (Nat × List UInt8)) : Decidable (Rearranged T rs rs') :=
  decidable_of_iff _ rearranged_iff.symm

namespace Rearranged

variable {a : Nat × List UInt8}

/-- What came first now comes behind records of fields that have nothing to do with it; without it
the others are rearranged too. -/
theorem front (h : Rearranged T (a :: rs) rs') :
    ∃ u v, rs' = u ++ a :: v ∧ (∀ p ∈ u, T.Apart a.1 p.1) ∧ Rearranged T rs (u ++ v) := by
  have hfields := h.fields a.1
  rw [List.filter_cons, if_pos (by simp), eq_comm, List.filter_eq_cons_iff] at hfields
  obtain ⟨u, v, rfl, hu, _, _⟩ := hfields
  simp only [decide_eq_true_eq] at hu
  -- the first record of a group that `a` belongs to is `a`, so `u` has none of that group
  have hgroup : ∀ group ∈ T.oneofs, a.1 ∈ group.members → ∀ p ∈ u, p.1 ∉ group.members := by
    intro group hgroup ha p hp hmember
    have hgroups := h.groups group hgroup
    rw [List.filter_cons, if_pos (by simpa using ha), List.filter_append] at hgroups
    have hin : p ∈ u.filter (·.1 ∈ group.members) :=
      List.mem_filter.mpr ⟨hp, by simpa using hmember⟩
    obtain ⟨b, bs, hcons⟩ := List.exists_cons_of_ne_nil (List.ne_nil_of_mem hin)
    rw [hcons, List.cons_append] at hgroups
    have hb : b ∈ u.filter (·.1 ∈ group.members) := hcons ▸ List.mem_cons_self
    exact hu b (List.mem_of_mem_filter hb) (by rw [(List.cons.inj hgroups).1])
  refine ⟨u, v, rfl, fun p hp => ⟨Ne.symm (hu p hp), ?_⟩, ?_, fun n => ?_, fun group hmem => ?_⟩
  · by_contra hexcludes
    obtain ⟨_, group, hmem, ha, hmember⟩ := MessageType.excludes_iff.mp (by simpa using hexcludes)
    exact hgroup group hmem ha p hp hmember
  · exact (h.perm.trans List.perm_middle).cons_inv
  · refine filter_eq_of_filter_cons_eq (fun ha p hp => ?_) (h.fields n)
    simp only [decide_eq_true_eq] at ha ⊢
    exact ha ▸ hu p hp
  · refine filter_eq_of_filter_cons_eq (fun ha p hp => ?_) (h.groups group hmem)
    simp only [decide_eq_true_eq] at ha ⊢
    exact hgroup group hmem ha p hp

end Rearranged

/-! ### Records step by step -/

namespace Steps

theorem merge (h : Steps S nesting rs m m') :
    Protowire.merge S nesting m (recordBytes rs) = ⟨m', [], none⟩ := by
  induction h with
  | nil => rw [recordBytes_nil, merge_nil]
  | cons head _ ih =>
    rw [recordBytes_cons, head.merge]
    exact ih

theorem of_merge (hrs : ∀ p ∈ rs, ∃ room, RecordForm room p.1 p.2)
    (h : (Protowire.merge S nesting m (recordBytes rs)).error? = none) :
    ∃ m', Steps S nesting rs m m' := by
  induction rs generalizing m with
  | nil => exact ⟨m, .nil⟩
  | cons p rs ih =>
    obtain ⟨⟨room, hform⟩, hrs⟩ := List.forall_mem_cons.mp hrs
    rw [recordBytes_cons] at h
    obtain ⟨r, m₁, hstep, hmerge⟩ := Step.of_merge hform h
    obtain ⟨m', hsteps⟩ := ih hrs (hmerge ▸ h)
    exact ⟨m', .cons hstep hsteps⟩

/-- A record may go behind records of fields that have nothing to do with its own. -/
theorem push {n : Nat} {form : List UInt8} {r : Record} {u v : List (Nat × List UInt8)}
    {m₁ : Message} (hT : (S.type m.type).WellFormed types) (hm : FieldMap.Ascending m.fields)
    (hu : ∀ p ∈ u, (S.type m.type).Apart n p.1) (hstep : Step S nesting n form r m m₁)
    (hsteps : Steps S nesting (u ++ v) m₁ m') : Steps S nesting (u ++ (n, form) :: v) m m' := by
  induction u generalizing m m₁ with
  | nil => exact .cons hstep hsteps
  | cons p u ih =>
    cases hsteps with
    | cons head tail =>
      obtain ⟨hp, hothers⟩ := List.forall_mem_cons.mp hu
      obtain ⟨m₂, hfirst, hsecond⟩ := hstep.comm hT hm hp head
      have htype := hfirst.type
      exact .cons hfirst (ih (htype ▸ hT) (hfirst.ascending hm) (htype ▸ hothers) hsecond tail)

/-- The induction is on the records in their first order. -/
theorem rearrange (h : Steps S nesting rs m m') (hT : (S.type m.type).WellFormed types)
    (hm : FieldMap.Ascending m.fields) (horder : Rearranged (S.type m.type) rs rs') :
    Steps S nesting rs' m m' := by
  induction h generalizing rs' with
  | nil =>
    rw [horder.perm.nil_eq.symm]
    exact .nil
  | @cons n form r rs m m₁ m' head tail ih =>
    obtain ⟨u, v, rfl, hapart, hrest⟩ := horder.front
    have htype := head.type
    have hothers := ih (htype ▸ hT) (head.ascending hm) (htype ▸ hrest)
    exact hothers.push hT hm hapart head

end Steps

/-- Complete records that merge also merge in any other order that leaves the records of one field,
and those of one oneof group, as they stand, and come to the same message. -/
theorem record_order_irrelevant (hT : (S.type m.type).WellFormed types)
    (hm : FieldMap.Ascending m.fields) (hrs : ∀ p ∈ rs, ∃ room, RecordForm room p.1 p.2)
    (h : (merge S nesting m (recordBytes rs)).error? = none)
    (horder : Rearranged (S.type m.type) rs rs') :
    (merge S nesting m (recordBytes rs')).error? = none ∧
      (merge S nesting m (recordBytes rs')).message =
        (merge S nesting m (recordBytes rs)).message := by
  obtain ⟨m', hsteps⟩ := Steps.of_merge hrs h
  rw [(hsteps.rearrange hT hm horder).merge, hsteps.merge]
  exact ⟨rfl, rfl⟩

section

open Vision

/-- An error, a name, an unknown number, two bodies of the metadata and then a response, which
replaces the error. -/
def operationRecords : List (Nat × List UInt8) :=
  [(4, [34, 0]), (1, [10, 1, 120]), (15, [120, 5]), (2, [18, 3, 10, 1, 117]),
    (2, [18, 2, 18, 0]), (5, [42, 0])]

def operationRecordsRearranged : List (Nat × List UInt8) :=
  [(2, [18, 3, 10, 1, 117]), (4, [34, 0]), (5, [42, 0]), (15, [120, 5]),
    (2, [18, 2, 18, 0]), (1, [10, 1, 120])]

theorem recordForm_operationRecords :
    ∀ p ∈ operationRecords, ∃ room, RecordForm room p.1 p.2 := by
  have hdelimited {n : Nat} {b c : UInt8} {body : List UInt8}
      (htag : TagForm [b] (n, .lengthDelimited)) (hlength : Varint.Form [c] body.length) :
      ∃ room, RecordForm room n (b :: c :: body) := by
    have hplain : PlainForm .lengthDelimited (c :: body) := ⟨body, [c], hlength, rfl⟩
    exact ⟨0, [b], _, c :: body, htag, hplain.value 0 n, rfl⟩
  have herror : TagForm [34] (4, .lengthDelimited) :=
    ⟨34, ⟨.last (by decide), by decide, by decide⟩, by decide, by decide, rfl⟩
  have hname : TagForm [10] (1, .lengthDelimited) :=
    ⟨10, ⟨.last (by decide), by decide, by decide⟩, by decide, by decide, rfl⟩
  have hunknown : TagForm [120] (15, .varint) :=
    ⟨120, ⟨.last (by decide), by decide, by decide⟩, by decide, by decide, rfl⟩
  have hmetadata : TagForm [18] (2, .lengthDelimited) :=
    ⟨18, ⟨.last (by decide), by decide, by decide⟩, by decide, by decide, rfl⟩
  have hresponse : TagForm [42] (5, .lengthDelimited) :=
    ⟨42, ⟨.last (by decide), by decide, by decide⟩, by decide, by decide, rfl⟩
  have hnumber : PlainForm .varint [5] := ⟨5, .last (by decide), by decide, by decide⟩
  simp only [operationRecords, List.forall_mem_cons]
  refine ⟨?_, ?_, ?_, ?_, ?_, ?_, by simp⟩
  · exact hdelimited herror ⟨.last (by decide), by decide, by decide⟩
  · exact hdelimited hname ⟨.last (by decide), by decide, by decide⟩
  · exact ⟨0, [120], .varint, [5], hunknown, hnumber.value 0 15, rfl⟩
  · exact hdelimited hmetadata ⟨.last (by decide), by decide, by decide⟩
  · exact hdelimited hmetadata ⟨.last (by decide), by decide, by decide⟩
  · exact hdelimited hresponse ⟨.last (by decide), by decide, by decide⟩

/-- An operation that already holds metadata and a flag. -/
def runningOperation : Message :=
  ⟨TypeName.operation.id, [(2, .message ⟨TypeName.any.id, [(1, .string "t")]⟩), (3, .bool true)]⟩

/-- The metadata that is there before takes up both bodies. -/
theorem operationRecords_rearranged :
    (merge schema Limits.default.nesting runningOperation
        (recordBytes operationRecordsRearranged)).error? = none ∧
      (merge schema Limits.default.nesting runningOperation
        (recordBytes operationRecordsRearranged)).message =
        (merge schema Limits.default.nesting runningOperation
          (recordBytes operationRecords)).message := by
  have horder : Rearranged (schema.type TypeName.operation.id) operationRecords
      operationRecordsRearranged := by
    rw [schema_type_id]
    decide
  have hbytes : recordBytes operationRecords = [34, 0, 10, 1, 120, 120, 5, 18, 3, 10, 1,
      117, 18, 2, 18, 0, 42, 0] := by
    decide
  have hmerges : (merge schema Limits.default.nesting runningOperation
      (recordBytes operationRecords)).error? = none := by
    rw [hbytes]
    cbv
  exact record_order_irrelevant (schema_wellFormed.type _)
    (by simp [FieldMap.Ascending, runningOperation]) recordForm_operationRecords hmerges horder

end

end Protowire
