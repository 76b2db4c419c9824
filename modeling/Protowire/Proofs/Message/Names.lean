import Protowire.Proofs.Message.Merge

/-!
What the types of a schema are called does not matter to decoding. Schemas that differ in nothing
else read the same bytes and come to the same messages, and a canonical message has the same bytes
in both, provided that a name tells the type in one of them. So where the types of a schema are well
formed but share names, all this may be asked of a schema with other names (`Schema.exists_alike`).
-/

namespace Protowire

open Reader Wire

/-- The types of two schemas declare the same fields and oneof groups, whatever they are called. -/
structure Schema.Alike (S S' : Schema) : Prop where
  size : S.types.size = S'.types.size
  fields (t : TypeId) : (S.type t).fields = (S'.type t).fields
  oneofs (t : TypeId) : (S.type t).oneofs = (S'.type t).oneofs

variable {S S' : Schema} {T T' : MessageType} {nesting : Nesting} {m : Message} {f : Field}
  {bs : List UInt8}

/-! ### A name for each type -/

/-- The schema with a name for each type that no other one has. -/
def Schema.renamed (S : Schema) : Schema :=
  ⟨S.types.mapIdx fun t T => ⟨String.ofList (List.replicate t 'm'), T.fields, T.oneofs⟩⟩

theorem Schema.alike_renamed (S : Schema) : S.Alike S.renamed := by
  refine ⟨by simp [renamed], fun t => ?_, fun t => ?_⟩
  all_goals
    cases ht : S.types[t]? with
    | none => simp [type, renamed, ht]
    | some T => simp [type, renamed, ht]

theorem MessageType.WellFormed.congr {types : Nat} (hT : T.WellFormed types)
    (hfields : T.fields = T'.fields) (honeofs : T.oneofs = T'.oneofs) : T'.WellFormed types := by
  obtain ⟨distinct, legal, members, references⟩ := hT
  simp only [oneof?, hfields, honeofs] at distinct legal members references
  exact ⟨distinct, legal, members, references⟩

theorem Schema.wellFormed_renamed (hS : ∀ t, (S.type t).WellFormed S.types.size) :
    S.renamed.WellFormed := by
  have halike := S.alike_renamed
  constructor
  · rw [List.Nodup, List.pairwise_iff_getElem]
    intro i j hi hj hij hname
    simp only [renamed, Array.toList_mapIdx, List.getElem_map, List.getElem_mapIdx,
      String.ofList_inj] at hname
    have hlength := congrArg List.length hname
    simp only [List.length_replicate] at hlength
    omega
  · intro T hT
    obtain ⟨t, ht⟩ := List.mem_iff_getElem?.mp hT
    have htype : S.renamed.type t = T := by
      rw [Array.getElem?_toList] at ht
      simp [type, ht]
    rw [← htype, ← halike.size]
    exact (hS t).congr (halike.fields t) (halike.oneofs t)

/-- Well-formed types make a well-formed schema if they are given other names. -/
theorem Schema.exists_alike (hS : ∀ t, (S.type t).WellFormed S.types.size) :
    ∃ R : Schema, R.WellFormed ∧ S.Alike R :=
  ⟨S.renamed, wellFormed_renamed hS, S.alike_renamed⟩

namespace Schema.Alike

theorem symm (h : S.Alike S') : S'.Alike S :=
  ⟨h.size.symm, fun t => (h.fields t).symm, fun t => (h.oneofs t).symm⟩

theorem field? (h : S.Alike S') (t : TypeId) (n : Nat) :
    (S.type t).field? n = (S'.type t).field? n := by
  rw [MessageType.field?, MessageType.field?, h.fields]

theorem oneof? (h : S.Alike S') (t : TypeId) : (S.type t).oneof? = (S'.type t).oneof? := by
  funext i
  rw [MessageType.oneof?, MessageType.oneof?, h.oneofs]

/-! ### Decoding -/

theorem form (h : S.Alike S') {t : TypeId} {room : Nat} {form : List UInt8} {r : Record}
    (hform : Record.Form (S.type t) room form r) : Record.Form (S'.type t) room form r := by
  have hfield := h.field? t
  cases hform with
  | unknown hf htag hvalue => exact .unknown (hfield _ ▸ hf) htag hvalue
  | value hf hkind htag hvalue => exact .value (hfield _ ▸ hf) hkind htag hvalue
  | packed hf hkind hrepeated hpackable htag hvalue hrun =>
    exact .packed (hfield _ ▸ hf) hkind hrepeated hpackable htag hvalue hrun
  | body hf hkind hroom htag hvalue => exact .body (hfield _ ▸ hf) hkind hroom htag hvalue

theorem take (h : S.Alike S') (m : Message) (f : Field) (v : Value) :
    m.take S' f v = m.take S f v := by
  simp only [Message.take, Message.store, MessageType.rivals, h.oneof?]

/-- What goes through in one schema goes through in the other; errors may differ in the names that
they give. -/
theorem merge_eq (h : S.Alike S') (hok : (merge S nesting m bs).error? = none) :
    merge S' nesting m bs = merge S nesting m bs := by
  induction hok using merge_induction with
  | nil => simp
  | @record nesting m m' form rest r hform hafter _ ihbody ih =>
    have hafter' : m.after S' nesting r = (m', none) := by
      rw [← hafter]
      refine Message.after_congr (h.take m) fun f t bytes hr => ?_
      subst hr
      exact ihbody _ (error?_of_after_body hafter)
    rw [merge_form hform hafter, merge_form (h.form hform) hafter', ih]

theorem decode_of_eq_ok (h : S.Alike S') {t : TypeId} {limits : Limits}
    (hdecode : Message.decode S t limits bs = .ok m) :
    Message.decode S' t limits bs = .ok m := by
  obtain ⟨hsize, herror, rfl⟩ := Message.decode_eq_ok_iff.mp hdecode
  rw [Message.decode_eq_ok_iff, h.merge_eq herror]
  exact ⟨hsize, herror, rfl⟩

theorem decode_eq_ok_iff (h : S.Alike S') {t : TypeId} {limits : Limits} :
    Message.decode S t limits bs = .ok m ↔ Message.decode S' t limits bs = .ok m :=
  ⟨h.decode_of_eq_ok, h.symm.decode_of_eq_ok⟩

end Schema.Alike

/-! ### Canonical messages -/

/-- Where a name tells the type, a message that fits a field by its name is of the field's type, and
so it fits whatever the types are called. -/
theorem Value.Canonical.accepts_of_wellFormed {t : TypeId} {v : Value} (hS : S.WellFormed)
    (hf : f ∈ (S.type t).fields) (hv : v.Canonical S) (haccepts : f.kind.accepts S v)
    (S' : Schema) : f.kind.accepts S' v := by
  cases hkind : f.kind with
  | scalar s => rwa [hkind] at haccepts
  | message u =>
    obtain ⟨x, rfl⟩ := Field.exists_message_of_accepts hkind haccepts
    have hx : x.Canonical S := hv x (List.mem_singleton.mpr rfl)
    have htype := hx.type_eq hS (hS.type t) hf hkind haccepts
    simp [Kind.accepts, htype]

end Protowire
