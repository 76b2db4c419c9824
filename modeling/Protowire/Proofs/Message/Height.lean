import Protowire.Proofs.Message.RoundTrip
import Protowire.Registry

/-!
How deep a decoded message nests. No write brings more levels into a message than there are in what
is written, and every body in the bytes takes one level of the room that the decoder has; so what
bytes are merged into nests no deeper than there was room, if it did not before.
-/

namespace Protowire

variable {S : Schema} {m : Message} {f : Field} {n room : Nat}

theorem fieldsHeight_le_iff {fields : FieldMap Value} :
    fieldsHeight fields ≤ room ↔ ∀ p ∈ fields, p.2.height ≤ room := by
  induction fields with
  | nil => simp [fieldsHeight]
  | cons p fields ih =>
    obtain ⟨n, v⟩ := p
    rw [fieldsHeight, max_le_iff, ih, List.forall_mem_cons]

theorem itemsHeight_le_iff {items : List Value} :
    itemsHeight items ≤ room ↔ ∀ v ∈ items, v.height ≤ room := by
  induction items with
  | nil => simp [itemsHeight]
  | cons v items ih => rw [itemsHeight, max_le_iff, ih, List.forall_mem_cons]

namespace Message

theorem height_le_iff : m.height ≤ room ↔ ∀ p ∈ m.fields, p.2.height ≤ room := by
  cases m
  exact fieldsHeight_le_iff

theorem height_of_get? {v : Value} (hm : m.height ≤ room) (hv : m.get? n = some v) :
    v.height ≤ room :=
  height_le_iff.mp hm _ (FieldMap.mem_of_get? hv)

theorem height_insert_le {v : Value} (hm : m.height ≤ room) (hv : v.height ≤ room) :
    (m.insert n v).height ≤ room := by
  apply height_le_iff.mpr
  intro p hp
  rcases FieldMap.mem_insert hp with rfl | hp
  · exact hv
  · exact height_le_iff.mp hm p hp

theorem height_clearAll_le (hm : m.height ≤ room) (ns : List Nat) :
    (m.clearAll ns).height ≤ room := by
  apply height_le_iff.mpr
  intro p hp
  exact height_le_iff.mp hm p (List.mem_of_mem_filter hp)

theorem height_clear_le (hm : m.height ≤ room) (n : Nat) : (m.clear n).height ≤ room := by
  apply height_le_iff.mpr
  intro p hp
  exact height_le_iff.mp hm p (List.mem_of_mem_filter hp)

theorem height_store_le {v : Value} (hm : m.height ≤ room) (hv : v.height ≤ room) :
    (m.store S f v).height ≤ room := by
  have hcleared := height_clearAll_le hm ((S.type m.type).rivals f)
  rw [store]
  split
  · exact height_clear_le hcleared f.number
  · exact height_insert_le hcleared hv

theorem height_of_mem_items {v : Value} (hm : m.height ≤ room) (hv : v ∈ m.items n) :
    v.height ≤ room := by
  rw [items] at hv
  cases hget : m.get? n with
  | none => simp [hget] at hv
  | some w =>
    cases w with
    | list items =>
      have hitems : itemsHeight items ≤ room := height_of_get? hm hget
      simp only [hget, Option.bind_some, Value.list?, Option.getD_some] at hv
      exact itemsHeight_le_iff.mp hitems v hv
    | _ => simp [hget, Value.list?] at hv

theorem height_appendItems_le {vs : List Value} (hm : m.height ≤ room)
    (hvs : ∀ v ∈ vs, v.height ≤ room) : (m.appendItems n vs).height ≤ room := by
  rw [appendItems]
  split
  · exact hm
  · refine height_insert_le hm (itemsHeight_le_iff.mpr fun w hw => ?_)
    rcases List.mem_append.mp hw with hw | hw
    · exact height_of_mem_items hm hw
    · exact hvs w hw

theorem height_take_le {v : Value} (hm : m.height ≤ room) (hv : v.height ≤ room) :
    (m.take S f v).height ≤ room := by
  rw [take]
  split
  · exact height_appendItems_le hm (by simpa using hv)
  · exact height_store_le hm hv

/-- What a body is merged into leaves a level of room for it. -/
theorem height_target_le (hm : m.height ≤ room) (hroom : 0 < room) (t : TypeId) :
    ((m.target? f).getD (empty t)).height ≤ room - 1 := by
  cases hx : m.target? f with
  | none => exact Nat.zero_le _
  | some x =>
    have hlt : x.height + 1 ≤ room := height_of_get? hm (target?_eq_some_iff.mp hx).2
    rw [Option.getD_some]
    omega

theorem height_takeMessage_le {x : Message} (hm : m.height ≤ room) (hx : x.height + 1 ≤ room) :
    (m.takeMessage S f x).height ≤ room := by
  rw [takeMessage]
  split
  · exact height_insert_le hm hx
  · exact height_take_le hm hx

theorem height_keepTarget_le {x : Message} (hm : m.height ≤ room) (hx : x.height + 1 ≤ room) :
    (m.keepTarget f x).height ≤ room := by
  rw [keepTarget]
  split
  · exact height_insert_le hm hx
  · exact hm

/-- One record keeps a message within the room, also one that fails inside, provided that merging
the record's body keeps within a level less. -/
theorem height_after_le {nesting : Nesting} {form : List UInt8} {r : Record}
    (hm : m.height ≤ nesting.room) (hform : Record.Form (S.type m.type) nesting.room form r)
    (hbody : ∀ x : Message, x.height ≤ nesting.deeper.room →
      (merge S nesting.deeper x r.bytes).message.height ≤ nesting.deeper.room) :
    (m.after S nesting r).1.height ≤ nesting.room := by
  cases hform with
  | unknown => exact hm
  | value _ _ _ hvalue =>
    refine height_take_le hm ?_
    rw [Scalar.height_of_accepts hvalue.accepts]
    exact Nat.zero_le _
  | packed _ _ _ _ _ _ hrun =>
    refine height_appendItems_le hm fun v hv => ?_
    rw [Scalar.height_of_accepts (hrun.accepts v hv)]
    exact Nat.zero_le _
  | @body _ f t _ _ bytes _ _ hroom =>
    have hinner := hbody _ (by simpa using height_target_le (f := f) hm hroom t)
    rw [Nesting.room_deeper] at hinner
    simp only [after]
    split
    · exact height_keepTarget_le hm (Nat.add_le_of_le_sub hroom hinner)
    · exact height_takeMessage_le hm (Nat.add_le_of_le_sub hroom hinner)

end Message

/-- Merging keeps within the room, whether it succeeds or fails. The induction is on the length of
the bytes; a record's body is shorter than they are and has a level of room less. -/
theorem height_merge_le {nesting : Nesting} {bs : List UInt8} (hm : m.height ≤ nesting.room) :
    (merge S nesting m bs).message.height ≤ nesting.room := by
  induction hn : bs.length using Nat.strongRecOn generalizing nesting m bs with
  | ind k ih =>
    obtain rfl | ⟨hne, e, rest, hr⟩ | ⟨r, rest, m', e?, hr, hlt, hafter⟩ :=
      merge_cases S nesting m bs
    · simpa using hm
    · rwa [merge_error hne hr]
    · obtain ⟨form, hform, _⟩ := (Record.reads_read _ _).form hr
      have hshorter := Record.read_ok hr
      have hm' : m'.height ≤ nesting.room := by
        have := Message.height_after_le hm hform fun x hx =>
          ih r.bytes.length (by omega) hx rfl
        rwa [hafter] at this
      rw [merge_record hr, hafter]
      cases e? with
      | some e => exact hm'
      | none => exact ih rest.length (hn ▸ hlt) hm' rfl

/-- A decoded message nests no deeper than the limit. -/
theorem height_le_of_decode {t : TypeId} {limits : Limits} {bs : List UInt8}
    (h : Message.decode S t limits bs = .ok m) : m.height ≤ limits.recursion := by
  obtain ⟨_, _, rfl⟩ := Message.decode_eq_ok_iff.mp h
  have hmerged : (merge S limits.nesting (Message.empty t) bs).message.height ≤ limits.nesting.room :=
    height_merge_le (Nat.zero_le _)
  simpa [Nesting.room, Limits.nesting] using hmerged

/-! ### Types of bounded depth -/

/-- Whether the fields of a type lead at most so many types further. -/
def Schema.shallow (S : Schema) : (levels : Nat) → TypeId → Bool
  | 0, t => (S.type t).references.isEmpty
  | levels + 1, t => (S.type t).references.all (S.shallow levels)

theorem MessageType.mem_references {T : MessageType} {t : TypeId} (hf : f ∈ T.fields)
    (hkind : f.kind = .message t) : t ∈ T.references :=
  List.mem_filterMap.mpr ⟨f, hf, by rw [hkind]⟩

theorem Schema.shallow_of_mem {levels : Nat} {t u : TypeId} (h : S.shallow levels t)
    (hu : u ∈ (S.type t).references) : ∃ below, levels = below + 1 ∧ S.shallow below u := by
  cases levels with
  | zero =>
    rw [shallow, List.isEmpty_iff] at h
    rw [h] at hu
    cases hu
  | succ below => exact ⟨below, rfl, List.all_eq_true.mp h u hu⟩

/-- The induction is on the levels of the type: a message inside is of a type with a level less. -/
theorem Message.Canonical.height_le {levels : Nat} (hS : S.WellFormed) (hm : m.Canonical S)
    (hshallow : S.shallow levels m.type) : m.height ≤ levels := by
  induction levels using Nat.strongRecOn generalizing m with
  | ind levels ih =>
    apply height_le_iff.mpr
    intro (n, v) hp
    have hget : m.get? n = some v := hm.shaped.ascending.get?_eq_some_iff.mpr hp
    obtain ⟨f, hf, hholds⟩ := hm.shaped.stored n v hget
    have hmem := MessageType.mem_of_field? hf
    have helement {w : Value} (haccepts : f.kind.accepts S w) (hw : w.Canonical S) :
        w.height ≤ levels := by
      cases hkind : f.kind with
      | scalar s =>
        rw [hkind] at haccepts
        rw [Scalar.height_of_accepts haccepts]
        exact Nat.zero_le _
      | message t =>
        obtain ⟨x, rfl⟩ := Field.exists_message_of_accepts hkind haccepts
        have hx : x.Canonical S := hw x (List.mem_singleton.mpr rfl)
        have htype := Message.Canonical.type_eq hS (hS.type m.type) hmem hkind hx haccepts
        obtain ⟨below, rfl, hbelow⟩ :=
          Schema.shallow_of_mem hshallow (MessageType.mem_references hmem hkind)
        exact Nat.succ_le_succ (ih below (Nat.lt_succ_self _) hx (htype ▸ hbelow))
    cases hholds with
    | one _ haccepts => exact helement haccepts (hm.value hget)
    | many _ _ haccepts =>
      refine itemsHeight_le_iff.mpr fun w hw => helement (haccepts w hw) ?_
      exact (hm.value hget).of_mem_list (haccepts w hw) hw

end Protowire
