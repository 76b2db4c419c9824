import Protowire.Proofs.Message.Local
import Protowire.Proofs.Wire.Written
import Protowire.Message.Encode

/-!
Packed, unpacked and mixed forms are equivalent. The values of a repeated field of numbers may be
cut anywhere: each chunk is a record in which they stand packed, or one value behind a tag of its
own. Every chunk adds its values at the end of what the field holds, whatever else has come in
between, and nothing else notices it.
-/

namespace Protowire

open Reader Wire

/-- The forms of consecutive values of a repeated field: any number of them packed under one tag, or
a single one. -/
inductive Scalar.ChunkForm (s : Scalar) (n : Nat) : List UInt8 → List Value → Prop
  | packed {tag value region : List UInt8} {vs : List Value}
    (htag : TagForm tag (n, .lengthDelimited)) (hvalue : DelimitedForm value region)
    (hrun : s.RunForm region vs) : ChunkForm s n (tag ++ value) vs
  | single {tag value : List UInt8} {v : Value} (htag : TagForm tag (n, s.wire))
    (hvalue : s.Form value v) : ChunkForm s n (tag ++ value) [v]

/-- Chunks of field `n`, which together hold `vs`, with complete records of other fields before,
between and behind them. Without the chunks these records are `others`. -/
inductive Interleaved (s : Scalar) (n : Nat) :
    List UInt8 → (vs : List Value) → (others : List UInt8) → Prop
  | nil : Interleaved s n [] [] []
  | chunk {form bs others : List UInt8} {vs ws : List Value} (hform : s.ChunkForm n form vs)
    (hrest : Interleaved s n bs ws others) : Interleaved s n (form ++ bs) (vs ++ ws) others
  | other {room k : Nat} {form bs others : List UInt8} {vs : List Value} (hk : k ≠ n)
    (hform : RecordForm room k form) (hrest : Interleaved s n bs vs others) :
    Interleaved s n (form ++ bs) vs (form ++ others)

namespace Scalar

variable {s : Scalar} {n : Nat} {v : Value} {vs : List Value}

/-! ### What is written -/

theorem chunkForm_writePacked (hmin : minFieldNumber ≤ n) (hmax : n ≤ maxFieldNumber)
    (h : ∀ v ∈ vs, s.accepts v) (hlength : (vs.flatMap s.write).length < 2 ^ 64) :
    s.ChunkForm n (s.writePacked n vs) vs := by
  rw [writePacked, List.filter_eq_self.mpr h, writeDelimited]
  exact .packed (tagForm_writeTag _ hmin hmax) (delimitedForm_delimited hlength)
    (runForm_write h hlength)

theorem chunkForm_writeTagged (hmin : minFieldNumber ≤ n) (hmax : n ≤ maxFieldNumber)
    (hpackable : s.packable) (h : s.accepts v) : s.ChunkForm n (s.writeTagged n v) [v] := by
  have hlength : (s.write v).length < 2 ^ 64 :=
    Nat.lt_of_le_of_lt (length_write_le hpackable v) (by decide)
  rw [writeTagged, if_pos h]
  exact .single (tagForm_writeTag _ hmin hmax) (form_write h hlength)

end Scalar

/-! ### What is read -/

variable {S : Schema} {types : Nat} {nesting : Nesting} {m m₀ : Message} {f : Field} {s : Scalar}
  {n : Nat} {bs form others : List UInt8} {vs : List Value}

/-- Both kinds of chunks add their values at the end of the field. -/
theorem Scalar.ChunkForm.step (h : s.ChunkForm n form vs) (nesting : Nesting) (m : Message)
    (hf : (S.type m.type).field? n = some f) (hkind : f.kind = .scalar s)
    (hrepeated : f.repeated) (hpackable : s.packable) :
    ∃ r, Step S nesting n form r m (m.appendItems n vs) := by
  have hnumber := MessageType.number_of_field? hf
  cases h with
  | packed htag hvalue hrun =>
    refine ⟨.packed f vs, .packed hf hkind hrepeated hpackable htag hvalue hrun, hf.symm, ?_⟩
    rw [Message.after, hnumber]
  | @single tag value v htag hvalue =>
    refine ⟨.value f v, .value hf hkind htag hvalue, hf.symm, ?_⟩
    rw [Message.after, Message.take, if_pos hrepeated, hnumber]

/-- The chunks and the other records go into `m`, the other records alone into `m₀`; all along the
two messages agree outside of field `n`. -/
theorem Interleaved.merge (h : Interleaved s n bs vs others)
    (hT : (S.type m.type).WellFormed types) (hf : (S.type m.type).field? n = some f)
    (hkind : f.kind = .scalar s) (hrepeated : f.repeated) (hpackable : s.packable)
    (htype : m.type = m₀.type) (hagree : ∀ k ≠ n, m.get? k = m₀.get? k)
    (hothers : (Protowire.merge S nesting m₀ others).error? = none) :
    ∃ m', Protowire.merge S nesting m bs = ⟨m', [], none⟩ ∧
      m'.get? n = (m.appendItems n vs).get? n ∧
        ∀ k ≠ n, m'.get? k = (Protowire.merge S nesting m₀ others).message.get? k := by
  induction h generalizing m m₀ with
  | nil =>
    rw [merge_nil, merge_nil]
    exact ⟨m, rfl, rfl, hagree⟩
  | @chunk form bs others vs ws hform _ ih =>
    obtain ⟨r, hstep⟩ := hform.step (S := S) nesting m hf hkind hrepeated hpackable
    have htype' := hstep.type
    have hagree' : ∀ k ≠ n, (m.appendItems n vs).get? k = m₀.get? k := by
      intro k hk
      rw [m.changed_appendItems rfl vs k, if_neg hk, if_neg List.not_mem_nil, hagree k hk]
    obtain ⟨m', hmerge, hget, hrest⟩ := ih (htype' ▸ hT) (htype' ▸ hf) (htype'.trans htype) hagree'
      hothers
    rw [Message.appendItems_appendItems] at hget
    exact ⟨m', (hstep.merge bs).trans hmerge, hget, hrest⟩
  | @other room k form bs others vs hk hform _ ih =>
    obtain ⟨r, m₁, hstep₀, hmerge₀⟩ := Step.of_merge hform hothers
    rw [hmerge₀] at hothers ⊢
    obtain ⟨m₂, hstep, hsame⟩ := hstep₀.agree (htype ▸ hT) htype (hagree k hk)
    have hapart : (S.type m.type).Apart k n :=
      ⟨hk, (MessageType.excludes_comm _ k n).trans (hT.excludes_of_repeated hf hrepeated k)⟩
    have htype' := hstep.type
    have htype₁ : m₂.type = m₁.type := htype'.trans (htype.trans hstep₀.type.symm)
    obtain ⟨m', hmerge, hget, hrest⟩ := ih (htype' ▸ hT) (htype' ▸ hf) htype₁
      (fun j hj => hsame j (hagree j hj)) hothers
    have hn : m₂.get? n = m.get? n := hstep.get?_of_apart hT hapart
    refine ⟨m', (hstep.merge bs).trans hmerge, ?_, hrest⟩
    rw [hget, m₂.changed_appendItems hn vs n, m.changed_appendItems rfl vs n, if_pos rfl,
      if_pos rfl]

/-- However its values are cut, and whatever stands between the chunks, a repeated field of numbers
takes them up behind those that it holds, and the other fields become what they become without
it. -/
theorem packed_unpacked_mixed (nesting : Nesting) (hm : m.Canonical S)
    (hT : (S.type m.type).WellFormed types) (hf : (S.type m.type).field? n = some f)
    (hkind : f.kind = .scalar s) (hrepeated : f.repeated) (hpackable : s.packable) :
    (∀ vs, (∀ v ∈ vs, s.accepts v) → (vs.flatMap s.write).length < 2 ^ 64 →
      s.ChunkForm n (s.writePacked n vs) vs) ∧
    (∀ v, s.accepts v → s.ChunkForm n (s.writeTagged n v) [v]) ∧
    ∀ bs vs others, Interleaved s n bs vs others →
      (merge S nesting m others).error? = none →
      ∃ m', merge S nesting m bs = ⟨m', [], none⟩ ∧
        m'.get? n = (if (m.items n ++ vs).isEmpty then none else some (.list (m.items n ++ vs))) ∧
        ∀ k ≠ n, m'.get? k = (merge S nesting m others).message.get? k := by
  have hnumber := MessageType.number_of_field? hf
  obtain ⟨hmin, hmax⟩ := hT.legal f (MessageType.mem_of_field? hf)
  rw [hnumber] at hmin hmax
  refine ⟨fun vs => Scalar.chunkForm_writePacked hmin hmax,
    fun v => Scalar.chunkForm_writeTagged hmin hmax hpackable, fun bs vs others h hothers => ?_⟩
  obtain ⟨m', hmerge, hget, hrest⟩ := h.merge hT hf hkind hrepeated hpackable rfl (fun _ _ => rfl)
    hothers
  refine ⟨m', hmerge, ?_, hrest⟩
  rw [hget, m.changed_appendItems rfl vs n, if_pos rfl]
  change (if vs.isEmpty then m.get? n else some (.list (m.items n ++ vs))) = _
  cases vs with
  | cons v vs => simp
  | nil =>
    rw [List.append_nil]
    exact hm.get?_of_repeated hf hrepeated

section

/-- A schema of one type, which has a field of numbers and a label. -/
def samples : Schema :=
  ⟨#[⟨"Samples", [.many 1 "values" (.scalar .sint32), .one 2 "label" .string], []⟩]⟩

theorem samples_wellFormed : samples.WellFormed := by decide

/-- Samples that hold one value. -/
def oneSample : Message := ⟨0, [(1, .list [.int32 7])]⟩

theorem canonical_oneSample : oneSample.Canonical samples := by
  have hread : (merge samples Limits.default.nesting (Message.empty 0) [8, 14]).message =
      oneSample := by
    cbv
  rw [← hread]
  exact (Message.Canonical.empty (by decide)).merge samples_wellFormed

/-- No values, one behind its own tag, a label, then two of which the first takes two bytes although
one would do. -/
theorem interleaved_samples :
    Interleaved .sint32 1 [10, 0, 8, 1, 18, 1, 120, 10, 3, 132, 0, 3]
      [.int32 (-1), .int32 2, .int32 (-2)] [18, 1, 120] := by
  have hpacked : TagForm [10] (1, .lengthDelimited) :=
    ⟨10, ⟨.last (by decide), by decide, by decide⟩, by decide, by decide, rfl⟩
  have hsingle : TagForm [8] (1, .varint) :=
    ⟨8, ⟨.last (by decide), by decide, by decide⟩, by decide, by decide, rfl⟩
  have hlabel : TagForm [18] (2, .lengthDelimited) :=
    ⟨18, ⟨.last (by decide), by decide, by decide⟩, by decide, by decide, rfl⟩
  have htext : PlainForm .lengthDelimited [1, 120] :=
    ⟨[120], [1], ⟨.last (by decide), by decide, by decide⟩, rfl⟩
  have hnone : DelimitedForm [0] [] := ⟨[0], ⟨.last (by decide), by decide, by decide⟩, rfl⟩
  have htwo : DelimitedForm [3, 132, 0, 3] [132, 0, 3] :=
    ⟨[3], ⟨.last (by decide), by decide, by decide⟩, rfl⟩
  have hfirst : Scalar.Form .sint32 [1] (.int32 (-1)) :=
    ⟨1, ⟨.last (by decide), by decide, by decide⟩, rfl⟩
  have hsecond : Scalar.Form .sint32 [132, 0] (.int32 2) :=
    ⟨4, ⟨.more (by decide) (.last (by decide)), by decide, by decide⟩, rfl⟩
  have hthird : Scalar.Form .sint32 [3] (.int32 (-2)) :=
    ⟨3, ⟨.last (by decide), by decide, by decide⟩, rfl⟩
  have hother : RecordForm 0 2 [18, 1, 120] := ⟨[18], _, [1, 120], hlabel, htext.value 0 2, rfl⟩
  exact .chunk (.packed hpacked hnone .nil) (.chunk (.single hsingle hfirst)
    (.other (by decide) hother
      (.chunk (.packed hpacked htwo (.cons hsecond (.cons hthird .nil))) .nil)))

/-- The chunks come behind the value that is there, and the label as it does alone. -/
theorem samples_added :
    Scalar.sint32.ChunkForm 1 (Scalar.sint32.writePacked 1 [.int32 2, .int32 (-2)])
        [.int32 2, .int32 (-2)] ∧
      Scalar.sint32.ChunkForm 1 (Scalar.sint32.writeTagged 1 (.int32 (-1))) [.int32 (-1)] ∧
      ∃ m', merge samples Limits.default.nesting oneSample
          [10, 0, 8, 1, 18, 1, 120, 10, 3, 132, 0, 3] = ⟨m', [], none⟩ ∧
        m'.get? 1 = some (.list [.int32 7, .int32 (-1), .int32 2, .int32 (-2)]) ∧
        ∀ k ≠ 1, m'.get? k =
          (merge samples Limits.default.nesting oneSample [18, 1, 120]).message.get? k := by
  obtain ⟨hpacked, hsingle, hmerge⟩ := packed_unpacked_mixed (n := 1) (s := .sint32)
    (f := .many 1 "values" (.scalar .sint32)) Limits.default.nesting canonical_oneSample
    (samples_wellFormed.type _) (by decide) rfl rfl rfl
  exact ⟨hpacked _ (by decide) (by cbv), hsingle _ (by decide),
    hmerge _ _ _ interleaved_samples (by cbv)⟩

end

end Protowire
