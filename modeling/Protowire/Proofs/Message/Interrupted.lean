import Protowire.Proofs.Message.Merge
import Protowire.Proofs.Vision.Schema

/-!
What a failed merge leaves. The records in front of the one that fails have all done their work, and
that one has done nothing, unless it is the body of a message that is already there: then the
message keeps what a failed merge of the body leaves, which is described in the same way. A
relation says this, with one case for each place in which the failure can lie, and it holds of
exactly the merges that fail.
-/

namespace Protowire

open Reader Wire

/-- The complete records `p` all merge and turn `m` into `m₁`. -/
structure MergesTo (S : Schema) (nesting : Nesting) (m : Message) (p : List UInt8) (m₁ : Message) :
    Prop where
  complete : RunForm nesting.room p
  merge : merge S nesting m p = ⟨m₁, [], none⟩

/-- Merging the bytes into the message ends with the error and leaves the last message. In front of
the record that fails stand complete records `p`, which have led to `m₁`. -/
inductive Interrupted (S : Schema) :
    Nesting → Message → List UInt8 → DecodeError → (left : Message) → Prop
  /-- The record itself cannot be read: a tag, a number, a text, an element of a packed run, a
  group, a length. -/
  | record {nesting : Nesting} {m m₁ : Message} {p q rest : List UInt8} {e : DecodeError}
    (hp : MergesTo S nesting m p m₁) (hq : q ≠ [])
    (hread : Record.read (S.type m₁.type) nesting q = .error e rest) :
    Interrupted S nesting m (p ++ q) e m₁
  /-- The body of a new message fails, be it a new element or the first value of a field. -/
  | fresh {nesting : Nesting} {m m₁ x : Message} {p q body rest : List UInt8} {e : DecodeError}
    {f : Field} {t : TypeId} (hp : MergesTo S nesting m p m₁)
    (hread : Record.read (S.type m₁.type) nesting q = .ok (.body f t body) rest)
    (htarget : m₁.target? f = none)
    (hbody : Interrupted S nesting.deeper (Message.empty t) body e x) :
    Interrupted S nesting m (p ++ q) e m₁
  /-- The body for the message `x` that a singular field holds fails and leaves `x'` of it. -/
  | inside {nesting : Nesting} {m m₁ x x' : Message} {p q body rest : List UInt8} {e : DecodeError}
    {f : Field} {t : TypeId} (hp : MergesTo S nesting m p m₁)
    (hread : Record.read (S.type m₁.type) nesting q = .ok (.body f t body) rest)
    (hsingular : f.repeated = false) (hstored : m₁.get? f.number = some (.message x))
    (hbody : Interrupted S nesting.deeper x body e x') :
    Interrupted S nesting m (p ++ q) e (m₁.insert f.number (.message x'))

variable {S : Schema} {nesting : Nesting} {m m₁ m' : Message} {bs form p : List UInt8} {r : Record}
  {e : DecodeError} {f : Field} {t : TypeId}

theorem Message.keepTarget_of_none (h : m.target? f = none) (x : Message) :
    m.keepTarget f x = m := by
  rw [keepTarget, h]

theorem Message.keepTarget_of_some {y : Message} (h : m.target? f = some y) (x : Message) :
    m.keepTarget f x = m.insert f.number (.message x) := by
  rw [keepTarget, h]

/-- Only a body can fail once its record is read. -/
theorem Message.after_eq_error_iff :
    m.after S nesting r = (m', some e) ↔ ∃ f t body, r = .body f t body ∧
      (merge S nesting.deeper ((m.target? f).getD (empty t)) body).error? = some e ∧
        m' = m.keepTarget f
          (merge S nesting.deeper ((m.target? f).getD (empty t)) body).message := by
  cases r with
  | unknown | value | packed => simp [after]
  | body f t body =>
    simp only [after, Record.body.injEq]
    split <;> rename_i herror
    · constructor
      · intro h
        cases h
        exact ⟨f, t, body, ⟨rfl, rfl, rfl⟩, herror, rfl⟩
      · rintro ⟨_, _, _, ⟨rfl, rfl, rfl⟩, herror', rfl⟩
        rw [herror] at herror'
        cases herror'
        rfl
    · constructor
      · intro h
        cases h
      · rintro ⟨_, _, _, ⟨rfl, rfl, rfl⟩, herror', rfl⟩
        rw [herror] at herror'
        cases herror'

namespace MergesTo

theorem nil (S : Schema) (nesting : Nesting) (m : Message) : MergesTo S nesting m [] m :=
  ⟨.nil, merge_nil⟩

theorem cons (hform : Record.Form (S.type m.type) nesting.room form r)
    (hafter : m.after S nesting r = (m', none)) (h : MergesTo S nesting m' p m₁) :
    MergesTo S nesting m (form ++ p) m₁ := by
  obtain ⟨_, hrecord, _⟩ := hform.complete
  refine ⟨hrecord.run h.complete, ?_⟩
  rw [merge_form hform hafter]
  exact h.merge

theorem append (h : MergesTo S nesting m p m₁) (bs : List UInt8) :
    Protowire.merge S nesting m (p ++ bs) = Protowire.merge S nesting m₁ bs := by
  rw [merge_append (by rw [h.merge]), h.merge]

end MergesTo

namespace Interrupted

theorem cons (hform : Record.Form (S.type m.type) nesting.room form r)
    (hafter : m.after S nesting r = (m', none)) (h : Interrupted S nesting m' bs e m₁) :
    Interrupted S nesting m (form ++ bs) e m₁ := by
  cases h with
  | record hp hq hread =>
    rw [← List.append_assoc]
    exact .record (hp.cons hform hafter) hq hread
  | fresh hp hread htarget hbody =>
    rw [← List.append_assoc]
    exact .fresh (hp.cons hform hafter) hread htarget hbody
  | inside hp hread hsingular hstored hbody =>
    rw [← List.append_assoc]
    exact .inside (hp.cons hform hafter) hread hsingular hstored hbody

/-- What is left is what the cases say. -/
theorem merge (h : Interrupted S nesting m bs e m') :
    (Protowire.merge S nesting m bs).error? = some e ∧
      (Protowire.merge S nesting m bs).message = m' := by
  induction h with
  | record hp hq hread =>
    rw [hp.append, merge_error hq hread]
    exact ⟨rfl, rfl⟩
  | @fresh nesting m m₁ x p q body rest e f t hp hread htarget _ ih =>
    have hafter : m₁.after S nesting (.body f t body) = (m₁, some e) := by
      rw [Message.after_eq_error_iff]
      refine ⟨f, t, body, rfl, ?_, (Message.keepTarget_of_none htarget _).symm⟩
      rw [htarget]
      exact ih.1
    rw [hp.append, merge_record hread, hafter]
    exact ⟨rfl, rfl⟩
  | @inside nesting m m₁ x x' p q body rest e f t hp hread hsingular hstored _ ih =>
    have htarget : m₁.target? f = some x := Message.target?_eq_some_iff.mpr ⟨hsingular, hstored⟩
    have hafter : m₁.after S nesting (.body f t body) =
        (m₁.insert f.number (.message x'), some e) := by
      rw [Message.after_eq_error_iff]
      refine ⟨f, t, body, rfl, ?_, ?_⟩
      · rw [htarget]
        exact ih.1
      · rw [Message.keepTarget_of_some htarget, htarget, Option.getD_some, ih.2]
    rw [hp.append, merge_record hread, hafter]
    exact ⟨rfl, rfl⟩

/-- Whatever fails falls under one of the cases. The induction is on the length of the bytes, which
is greater than that of a body in them and than that of what follows a record. -/
theorem of_error (h : (Protowire.merge S nesting m bs).error? = some e) :
    Interrupted S nesting m bs e (Protowire.merge S nesting m bs).message := by
  induction hn : bs.length using Nat.strongRecOn generalizing nesting m bs with
  | ind n ih =>
    obtain rfl | ⟨hne, e', rest, hr⟩ | ⟨r, rest, m', e?, hr, hlt, hafter⟩ :=
      merge_cases S nesting m bs
    · rw [merge_nil] at h
      cases h
    · rw [merge_error hne hr] at h ⊢
      cases h
      exact .record (.nil S nesting m) hne hr
    · rw [merge_record hr, hafter] at h ⊢
      cases e? with
      | none =>
        obtain ⟨form, hform, rfl⟩ := (Record.reads_read _ _).form hr
        exact (ih _ (hn ▸ hlt) h rfl).cons hform hafter
      | some e' =>
        cases h
        obtain ⟨f, t, body, rfl, herror, rfl⟩ := Message.after_eq_error_iff.mp hafter
        have hshorter : body.length < n := by
          have hread := Record.read_ok hr
          simp only [Record.bytes] at hread
          omega
        have hbody := ih _ hshorter herror rfl
        cases htarget : m.target? f with
        | none =>
          rw [htarget] at hbody
          rw [Message.keepTarget_of_none htarget]
          exact .fresh (.nil S nesting m) hr htarget hbody
        | some x =>
          obtain ⟨hsingular, hstored⟩ := Message.target?_eq_some_iff.mp htarget
          rw [htarget] at hbody
          rw [Message.keepTarget_of_some htarget]
          exact .inside (.nil S nesting m) hr hsingular hstored hbody

end Interrupted

/-- A merge ends with an error and leaves a message exactly as the cases say. -/
theorem failed_merge_iff (S : Schema) (nesting : Nesting) (m : Message) (bs : List UInt8)
    (e : DecodeError) (m' : Message) :
    (merge S nesting m bs).error? = some e ∧ (merge S nesting m bs).message = m' ↔
      Interrupted S nesting m bs e m' := by
  constructor
  · rintro ⟨herror, rfl⟩
    exact .of_error herror
  · exact Interrupted.merge

open Vision in
/-- The name is stored, and of the body of the metadata the type URL; the cut-off bytes are not. -/
example : (merge schema Limits.default.nesting
    ⟨TypeName.operation.id, [(2, .message ⟨TypeName.any.id, [(1, .string "t")]⟩)]⟩
    ([10, 1, 120] ++ [18, 5, 10, 1, 117, 18, 1])).message =
      ⟨TypeName.operation.id,
        [(1, .string "x"), (2, .message ⟨TypeName.any.id, [(1, .string "u")]⟩)]⟩ := by
  cbv

end Protowire
