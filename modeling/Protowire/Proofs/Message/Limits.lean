import Protowire.Proofs.Message.Height

/-!
Limits only filter. A reader under a lower recursion limit either stops at that limit or does what
it does under a higher one (`Capped`); this goes from the groups to a record, from a record to the
message after it, and from there to whole merges. The size limit is looked at once, before anything
is read.
-/

namespace Protowire

open Reader Wire

/-- The same depth under a limit that is no higher. -/
structure Nesting.Tighter (a b : Nesting) : Prop where
  depth : a.depth = b.depth
  limit : a.limit ≤ b.limit

theorem Nesting.Tighter.deeper {a b : Nesting} (h : a.Tighter b) : a.deeper.Tighter b.deeper :=
  ⟨congrArg (· + 1) h.depth, h.limit⟩

/-- The reader stops at the recursion limit, or else it does what `r'` does. -/
def Reader.Capped {α : Type} (limit : Nat) (r r' : Reader DecodeError α) : Prop :=
  ∀ bs, (∃ rest, r bs = .error (.recursionLimitExceeded limit) rest) ∨ r bs = r' bs

variable {S : Schema} {nesting nesting' : Nesting} {limit : Nat}

theorem Reader.Capped.map {α β : Type} {r r' : Reader DecodeError α} (h : Capped limit r r')
    (f : α → β) : Capped limit (f <$> r) (f <$> r') := by
  intro bs
  simp only [Functor.map, EStateM.map]
  obtain ⟨rest, hr⟩ | hr := h bs
  · exact .inl ⟨rest, by rw [hr]⟩
  · exact .inr (by rw [hr])

/-! ### Reading a record -/

namespace Wire

theorem capped_skipGroups (h : nesting.Tighter nesting') (opened : List Nat) :
    Capped nesting.limit (skipGroups nesting opened) (skipGroups nesting' opened) := by
  intro bs
  have hdepth := h.depth
  have hlimit := h.limit
  -- both go the same way up to the first group that only the lower limit forbids
  fun_induction skipGroups nesting opened bs with
  | case1 bs => exact .inr (by rw [skipGroups])
  | case2 number outer => exact .inr (by rw [skipGroups])
  | case3 number outer b bs e r ht =>
    right
    rw [skipGroups]
    split <;> simp_all
  | case4 outer b bs inner r ht ih =>
    obtain ⟨tag, htag, hbs⟩ := reads_readTag.form ht
    rw [hbs, skipGroups_close htag]
    exact ih
  | case5 number outer b bs inner r ht hne =>
    right
    rw [skipGroups]
    split <;> simp_all
  | case6 number outer b bs inner r ht hclosed => exact .inl ⟨r, rfl⟩
  | case7 number outer b bs inner r ht hopen ih =>
    obtain ⟨tag, htag, hbs⟩ := reads_readTag.form ht
    rw [hbs, skipGroups_open htag (by omega)]
    exact ih
  | case8 number outer b bs inner wire r hend hstart ht e r' hs =>
    right
    rw [skipGroups]
    split <;> simp_all
    split <;> simp_all
  | case9 number outer b bs inner wire r _ _ ht r' hs ih =>
    obtain ⟨tag, htag, hbs⟩ := reads_readTag.form ht
    obtain ⟨value, hvalue, rfl⟩ := (reads_skipPlain _ _).form hs
    rw [hbs, skipGroups_plain htag hvalue]
    exact ih

theorem capped_skipField (h : nesting.Tighter nesting') (number : Nat) (wire : WireType) :
    Capped nesting.limit (skipField nesting number wire) (skipField nesting' number wire) := by
  intro bs
  have hdepth := h.depth
  have hlimit := h.limit
  simp only [skipField]
  split
  · split
    · exact .inl ⟨bs, rfl⟩
    · rw [if_neg (by omega)]
      exact capped_skipGroups h [number] bs
  · exact .inr rfl

end Wire

namespace Record

theorem capped_readField (h : nesting.Tighter nesting') (T : MessageType) (f : Field)
    (wire : WireType) :
    Capped nesting.limit (readField T nesting f wire) (readField T nesting' f wire) := by
  intro bs
  have hdepth := h.depth
  have hlimit := h.limit
  cases hkind : f.kind with
  | scalar s => exact .inr (by simp only [readField, hkind])
  | message t =>
    simp only [readField, hkind, readNested, Functor.map, EStateM.map]
    by_cases hclosed : nesting.limit ≤ nesting.depth
    · by_cases hwire : wire = .lengthDelimited
      · exact .inl ⟨bs, by simp only [hwire, hclosed, ↓reduceIte]⟩
      · exact .inr (by simp only [hwire, ↓reduceIte])
    · -- with the higher limit the body is open too
      have hopen : ¬nesting'.limit ≤ nesting'.depth := by omega
      right
      simp only [hclosed, hopen, ↓reduceIte]
      cases readBytes bs <;> rfl

/-- What a record is read as does not depend on the limit, unless the lower one forbids it. -/
theorem capped_read (h : nesting.Tighter nesting') (T : MessageType) :
    Capped nesting.limit (read T nesting) (read T nesting') := by
  intro bs
  simp only [read]
  split
  · exact .inr rfl
  · split
    · exact .inr rfl
    · split
      · exact capped_readField h T _ _ _
      · exact (capped_skipField h _ _).map _ _

end Record

/-! ### Merging -/

/-- Under the lower limit a record stops the merge at this limit, or else it does what it does under
the higher one, provided that this holds of merging its body. -/
theorem Message.after_capped (m : Message) (r : Record)
    (hbody : ∀ x : Message,
      (merge S nesting.deeper x r.bytes).error? = some (.recursionLimitExceeded nesting.limit) ∨
        merge S nesting.deeper x r.bytes = merge S nesting'.deeper x r.bytes) :
    (m.after S nesting r).2 = some (.recursionLimitExceeded nesting.limit) ∨
      m.after S nesting r = m.after S nesting' r := by
  cases r with
  | unknown | value | packed => exact .inr rfl
  | body f t bytes =>
    simp only [after]
    obtain herror | hsame := hbody ((m.target? f).getD (empty t))
    · rw [Record.bytes] at herror
      exact .inl (by rw [herror])
    · rw [Record.bytes] at hsame
      exact .inr (by rw [hsame])

/-- A merge under a lower limit ends at this limit, or else it is the merge under the higher one:
the same message, the same bytes left, the same error. The induction is on the length of the bytes;
up to the record that the lower limit forbids, both read the same records. -/
theorem merge_capped (h : nesting.Tighter nesting') (m : Message) (bs : List UInt8) :
    (merge S nesting m bs).error? = some (.recursionLimitExceeded nesting.limit) ∨
      merge S nesting m bs = merge S nesting' m bs := by
  induction hn : bs.length using Nat.strongRecOn generalizing nesting nesting' m bs with
  | ind n ih =>
    obtain rfl | ⟨hne, e, rest, hr⟩ | ⟨r, rest, m', e?, hr, hlt, hafter⟩ :=
      merge_cases S nesting m bs
    · exact .inr (by rw [merge_nil, merge_nil])
    · obtain ⟨rest', hlimit⟩ | hsame := Record.capped_read h (S.type m.type) bs
      · exact .inl (by rw [merge_error hne hlimit])
      · exact .inr (by rw [merge_error hne hr, merge_error hne (hsame ▸ hr)])
    · obtain ⟨rest', hlimit⟩ | hsame := Record.capped_read h (S.type m.type) bs
      · rw [hr] at hlimit
        cases hlimit
      · have hshorter := Record.read_ok hr
        have hstep := Message.after_capped m r fun x =>
          ih r.bytes.length (by omega) h.deeper x r.bytes rfl
        rw [merge_record hr, merge_record (hsame ▸ hr)]
        rw [hafter] at hstep ⊢
        obtain hlimit | hafter' := hstep
        · obtain rfl : e? = _ := hlimit
          exact .inl rfl
        · rw [← hafter']
          cases e? with
          | some e => exact .inr rfl
          | none => exact ih rest.length (hn ▸ hlt) h m' rest rfl

/-- Too many bytes are refused for their number alone; otherwise the size limit has no influence. Of
two recursion limits the lower one either ends the decoding or changes nothing of its outcome, and
what is decoded nests no deeper than the limit. -/
theorem limits_only_filter {limits limits' : Limits} (S : Schema) (t : TypeId) (bs : List UInt8)
    (h : limits.recursion ≤ limits'.recursion) :
    (limits.size < bs.length →
      Message.decode S t limits bs = .error (.messageTooLarge bs.length limits.size)) ∧
    (bs.length ≤ limits.size → ∀ size, bs.length ≤ size →
      Message.decode S t ⟨limits.recursion, size⟩ bs = Message.decode S t limits bs) ∧
    (bs.length ≤ limits.size → bs.length ≤ limits'.size →
      Message.decode S t limits bs = .error (.recursionLimitExceeded limits.recursion) ∨
        Message.decode S t limits bs = Message.decode S t limits' bs) ∧
    ∀ m, Message.decode S t limits bs = .ok m → m.height ≤ limits.recursion := by
  refine ⟨fun hsize => ?_, fun hsize size hsize' => ?_, fun hsize hsize' => ?_, fun m hm => ?_⟩
  · rw [Message.decode_eq, if_pos hsize]
  · rw [Message.decode_eq, Message.decode_eq, if_neg (by simpa using hsize'), if_neg (by omega)]
    rfl
  · rw [Message.decode_eq, Message.decode_eq, if_neg (by omega), if_neg (by omega)]
    have htighter : limits.nesting.Tighter limits'.nesting := ⟨rfl, h⟩
    obtain hlimit | hsame := merge_capped htighter (Message.empty t) bs
    · exact .inl (by rw [Merged.result, hlimit]; rfl)
    · exact .inr (by rw [hsame])
  · exact height_le_of_decode hm

section

open Vision

/-- The metadata of an operation takes one level. With room for just that and for few bytes, it
comes out as with the default limits. -/
theorem limits_only_filter_metadata :
    1 ≤ Limits.default.recursion ∧
      Message.decode schema TypeName.operation.id ⟨1, 8⟩ [18, 3, 10, 1, 117] =
        Message.decode schema TypeName.operation.id Limits.default [18, 3, 10, 1, 117] := by
  have hlimits : (⟨1, 8⟩ : Limits).recursion ≤ Limits.default.recursion := by decide
  have hdecode : Message.decode schema TypeName.operation.id ⟨1, 8⟩ [18, 3, 10, 1, 117] =
      .ok ⟨TypeName.operation.id, [(2, .message ⟨TypeName.any.id, [(1, .string "u")]⟩)]⟩ := by
    cbv
  obtain ⟨_, _, hfilter, _⟩ :=
    limits_only_filter schema TypeName.operation.id [18, 3, 10, 1, 117] hlimits
  refine ⟨hlimits, (hfilter (by decide) (by decide)).resolve_left fun hlimit => ?_⟩
  rw [hdecode] at hlimit
  cases hlimit

end

end Protowire
