import Protowire.Proofs.Message.Merge
import Protowire.Proofs.Vision.Schema

/-!
Concatenation is merging. Bytes `a` that merge into a message leave a message into which the bytes
behind them merge just as they do behind `a`; no error, payload or half-finished state tells the two
apart. One level down, two records of a singular message field amount to one record with both
bodies, since the second finds the message that the first has left.
-/

namespace Protowire

open Reader Wire

variable {S : Schema} {nesting : Nesting} {m : Message} {f : Field} {n : Nat} {t : TypeId}

/-- A message that comes into a singular field goes to one place, whether one was there or not. -/
theorem Message.takeMessage_eq_insert (S : Schema) (m : Message) (hsingular : f.repeated = false)
    (hkind : f.kind = .message t) :
    ∃ m₀ : Message, ∀ x, m.takeMessage S f x = m₀.insert f.number (.message x) := by
  cases htarget : m.target? f with
  | some y => exact ⟨m, fun x => by rw [takeMessage, htarget]⟩
  | none =>
    refine ⟨m.clearAll ((S.type m.type).rivals f), fun x => ?_⟩
    simp [takeMessage, htarget, take, hsingular, store, Field.tracksPresence, hkind,
      Kind.isMessage]

theorem Message.takeMessage_takeMessage (S : Schema) (m : Message) (hsingular : f.repeated = false)
    (hkind : f.kind = .message t) (x y : Message) :
    (m.takeMessage S f x).takeMessage S f y = m.takeMessage S f y := by
  obtain ⟨m₀, h⟩ := m.takeMessage_eq_insert S hsingular hkind
  rw [h, h, takeMessage, m₀.target?_insert hsingular]
  simp [Message.insert]

theorem Message.target?_takeMessage (S : Schema) (m : Message) (hsingular : f.repeated = false)
    (hkind : f.kind = .message t) (x : Message) : (m.takeMessage S f x).target? f = some x := by
  obtain ⟨m₀, h⟩ := m.takeMessage_eq_insert S hsingular hkind
  rw [h]
  exact m₀.target?_insert hsingular x

/-- A record whose body merges into an empty message merges into any canonical one. -/
theorem after_body_of_error?_eq_none {body : List UInt8} (hS : S.WellFormed) (hm : m.Canonical S)
    (hf : (S.type m.type).field? n = some f) (hkind : f.kind = .message t)
    (hbody : (merge S nesting.deeper (Message.empty t) body).error? = none) :
    m.after S nesting (.body f t body) =
      (m.takeMessage S f
        (merge S nesting.deeper ((m.target? f).getD (Message.empty t)) body).message, none) := by
  obtain ⟨htarget, htype⟩ := hm.target hS hf hkind
  have ht := (hS.type m.type).references f (MessageType.mem_of_field? hf) t hkind
  have hsame := error?_merge_congr hS htarget (Message.Canonical.empty ht) htype nesting.deeper body
  simp only [Message.after, hsame.trans hbody]

/-- Two bodies under one number are one body under it. -/
theorem merge_bodyForms {a b formA formB formAB : List UInt8} (hS : S.WellFormed)
    (hm : m.Canonical S) (hf : (S.type m.type).field? n = some f) (hsingular : f.repeated = false)
    (hkind : f.kind = .message t) (hformA : BodyForm n formA a) (hformB : BodyForm n formB b)
    (hformAB : BodyForm n formAB (a ++ b))
    (ha : (merge S nesting.deeper (Message.empty t) a).error? = none)
    (hb : (merge S nesting.deeper (Message.empty t) b).error? = none) (hroom : 0 < nesting.room) :
    merge S nesting m (formA ++ formB) = merge S nesting m formAB ∧
      (merge S nesting m formAB).error? = none := by
  obtain ⟨htarget, htype⟩ := hm.target hS hf hkind
  have ht := (hS.type m.type).references f (MessageType.mem_of_field? hf) t hkind
  have hempty := Message.Canonical.empty (S := S) ht
  have hx : (merge S nesting.deeper ((m.target? f).getD (Message.empty t)) a).message.Canonical S :=
    htarget.merge hS
  have hxt := (type_merge S nesting.deeper _ a).trans htype
  have ha' : (merge S nesting.deeper ((m.target? f).getD (Message.empty t)) a).error? = none :=
    (error?_merge_congr hS htarget hempty htype _ _).trans ha
  have hab : (merge S nesting.deeper (Message.empty t) (a ++ b)).error? = none := by
    rw [merge_append ha]
    exact (error?_merge_congr hS (hempty.merge hS) hempty (type_merge ..) _ _).trans hb
  -- the first record leaves a message that is canonical and has the target of the second
  have hm₁ := hm.takeMessage hS hf hkind hx hxt
  have htype₁ := m.type_takeMessage S f
    (merge S nesting.deeper ((m.target? f).getD (Message.empty t)) a).message
  have hone : merge S nesting m formAB =
      ⟨m.takeMessage S f
        (merge S nesting.deeper ((m.target? f).getD (Message.empty t)) (a ++ b)).message, [],
        none⟩ := by
    rw [← List.append_nil formAB, merge_bodyForm hf hkind hroom hformAB,
      after_body_of_error?_eq_none hS hm hf hkind hab]
    simp
  refine ⟨?_, by rw [hone]⟩
  rw [hone, merge_bodyForm hf hkind hroom hformA, after_body_of_error?_eq_none hS hm hf hkind ha,
    ← List.append_nil formB]
  simp only
  rw [merge_bodyForm (htype₁ ▸ hf) hkind hroom hformB,
    after_body_of_error?_eq_none hS hm₁ (htype₁ ▸ hf) hkind hb,
    Message.target?_takeMessage S m hsingular hkind, Option.getD_some, ← merge_append ha',
    Message.takeMessage_takeMessage S m hsingular hkind]
  simp

/-- Bytes behind bytes that merge are merged into what these leave: at the top, in decoding, and in
the body of a singular message field. -/
theorem concatenation_is_merging (S : Schema) :
    (∀ nesting m a b, (merge S nesting m a).error? = none →
      merge S nesting m (a ++ b) = merge S nesting (merge S nesting m a).message b) ∧
    (∀ t limits m a b, Message.decode S t limits a = .ok m → (a ++ b).length ≤ limits.size →
      Message.decode S t limits (a ++ b) = (merge S limits.nesting m b).result) ∧
    (∀ t m a b, Message.decode S t Limits.default a = .ok m →
      (a ++ b).length ≤ Limits.default.size →
      Message.decode S t Limits.default (a ++ b) = (m.mergeBytes S b).result) ∧
    (S.WellFormed → ∀ nesting m n f t a b formA formB formAB, m.Canonical S →
      (S.type m.type).field? n = some f → f.repeated = false → f.kind = .message t →
      BodyForm n formA a → BodyForm n formB b → BodyForm n formAB (a ++ b) →
      (merge S nesting.deeper (Message.empty t) a).error? = none →
      (merge S nesting.deeper (Message.empty t) b).error? = none →
      (merge S nesting m (formA ++ formB)).message = (merge S nesting m formAB).message ∧
        (merge S nesting m (formA ++ formB)).error? = (merge S nesting m formAB).error? ∧
        (0 < nesting.room → (merge S nesting m formAB).error? = none)) := by
  have hdecode : ∀ t limits m a b, Message.decode S t limits a = .ok m →
      (a ++ b).length ≤ limits.size →
      Message.decode S t limits (a ++ b) = (merge S limits.nesting m b).result := by
    intro t limits m a b ha hsize
    obtain ⟨_, herror, rfl⟩ := Message.decode_eq_ok_iff.mp ha
    rw [Message.decode_eq, if_neg (by omega), merge_append herror]
  refine ⟨fun nesting m a b ha => merge_append ha b, hdecode, fun t m a b => hdecode t _ m a b, ?_⟩
  intro hS nesting m n f t a b formA formB formAB hm hf hsingular hkind hA hB hAB ha hb
  by_cases hroom : 0 < nesting.room
  · obtain ⟨heq, hnone⟩ := merge_bodyForms hS hm hf hsingular hkind hA hB hAB ha hb hroom
    exact ⟨by rw [heq], by rw [heq], fun _ => hnone⟩
  · have hzero : nesting.room = 0 := by omega
    obtain ⟨h₁, h₂⟩ := merge_bodyForm_of_room_eq_zero hf hkind hzero hA formB
    obtain ⟨h₃, h₄⟩ := merge_bodyForm_of_room_eq_zero hf hkind hzero hAB []
    rw [List.append_nil] at h₃ h₄
    exact ⟨h₂.trans h₄.symm, h₁.trans h₃.symm, fun h => absurd h hroom⟩

section

open Vision

/-- An operation whose metadata holds a type URL and no bytes. -/
def operationWithMetadata : Message :=
  ⟨TypeName.operation.id, [(2, .message ⟨TypeName.any.id, [(1, .string "t")]⟩)]⟩

theorem canonical_operationWithMetadata : operationWithMetadata.Canonical schema := by
  have hread : (merge schema Limits.default.nesting (Message.empty TypeName.operation.id)
      [18, 3, 10, 1, 116]).message = operationWithMetadata := by
    cbv
  rw [← hread]
  exact (Message.Canonical.empty (id_lt_size _)).merge schema_wellFormed

/-- Behind a name comes a cut-off flag; the two bodies of the metadata have lengths of one byte and
of two. -/
theorem operation_concatenation :
    merge schema Limits.default.nesting operationWithMetadata ([10, 1, 120] ++ [24]) =
        merge schema Limits.default.nesting
          (merge schema Limits.default.nesting operationWithMetadata [10, 1, 120]).message [24] ∧
      Message.decode schema TypeName.operation.id Limits.default ([10, 1, 120] ++ [24]) =
        (merge schema Limits.default.nesting ⟨TypeName.operation.id, [(1, .string "x")]⟩
          [24]).result ∧
      Message.decode schema TypeName.operation.id Limits.default ([10, 1, 120] ++ [24]) =
        (Message.mergeBytes schema ⟨TypeName.operation.id, [(1, .string "x")]⟩ [24]).result ∧
      (merge schema Limits.default.nesting operationWithMetadata
          ([18, 3, 10, 1, 117] ++ [18, 130, 0, 18, 0])).message =
        (merge schema Limits.default.nesting operationWithMetadata
          [18, 5, 10, 1, 117, 18, 0]).message := by
  obtain ⟨happend, hdecode, hbytes, hbodies⟩ := concatenation_is_merging schema
  have hname : Message.decode schema TypeName.operation.id Limits.default [10, 1, 120] =
      .ok ⟨TypeName.operation.id, [(1, .string "x")]⟩ := by
    cbv
  have htag : TagForm [18] (2, .lengthDelimited) :=
    ⟨18, ⟨.last (by decide), by decide, by decide⟩, by decide, by decide, rfl⟩
  refine ⟨happend _ _ _ _ (by cbv), hdecode _ _ _ _ _ hname (by decide),
    hbytes _ _ _ _ hname (by decide), ?_⟩
  refine (hbodies schema_wellFormed _ _ 2 (.one 2 "metadata" (ref .any)) TypeName.any.id
    [10, 1, 117] [18, 0] _ _ _ canonical_operationWithMetadata (by cbv) rfl rfl ?_ ?_ ?_ (by cbv)
    (by cbv)).1
  · exact ⟨[18], _, htag, ⟨[3], ⟨.last (by decide), by decide, by decide⟩, rfl⟩, rfl⟩
  · exact ⟨[18], _, htag,
      ⟨[130, 0], ⟨.more (by decide) (.last (by decide)), by decide, by decide⟩, rfl⟩, rfl⟩
  · exact ⟨[18], _, htag, ⟨[5], ⟨.last (by decide), by decide, by decide⟩, rfl⟩, rfl⟩

end

end Protowire
