import Protowire.Proofs.Message.Order

/-!
Truncation is always detected. Bytes that merge split into complete records in one way
(`SplitsInto`). A proper prefix of them holds some of these records and a part of the next one. The
records merge as they do in front of the rest; the part, unless it is empty, cannot be read, and the
failure is one for want of input, since any other would also come on the whole bytes.
-/

namespace Protowire

open Reader Wire

/-- The bytes are complete records, one behind the other. -/
structure SplitsInto (bs : List UInt8) (rs : List (Nat × List UInt8)) : Prop where
  complete : ∀ r ∈ rs, ∃ room, RecordForm room r.1 r.2
  bytes : recordBytes rs = bs

/-- The bytes end between two of the records. -/
def EndsBetween (rs : List (Nat × List UInt8)) (p : List UInt8) : Prop :=
  ∃ u v, rs = u ++ v ∧ u ≠ [] ∧ v ≠ [] ∧ p = recordBytes u

variable {S : Schema} {T : MessageType} {nesting : Nesting} {m m' : Message}
  {b p bs c form : List UInt8} {rs rs' u v : List (Nat × List UInt8)} {r : Nat × List UInt8}
  {room n : Nat}

theorem Wire.RecordForm.ne_nil (h : RecordForm room n form) : form ≠ [] := by
  obtain ⟨tag, wire, value, htag, _, rfl⟩ := h
  obtain ⟨b, bs, hcons⟩ := htag.append_eq_cons value
  simp [hcons]

/-! ### Splitting bytes into records -/

namespace SplitsInto

theorem nil : SplitsInto [] [] := ⟨by simp, rfl⟩

theorem cons (hform : RecordForm room n form) (h : SplitsInto bs rs) :
    SplitsInto (form ++ bs) ((n, form) :: rs) :=
  ⟨List.forall_mem_cons.mpr ⟨⟨room, hform⟩, h.complete⟩, by rw [recordBytes_cons, h.bytes]⟩

/-- Both splits agree on their first record, so by induction on all of them. -/
theorem unique (h : SplitsInto bs rs) (h' : SplitsInto bs rs') : rs = rs' := by
  induction rs generalizing rs' bs with
  | nil =>
    cases rs' with
    | nil => rfl
    | cons r' rs' =>
      obtain ⟨⟨room', hr'⟩, _⟩ := List.forall_mem_cons.mp h'.complete
      have hnil : r'.2 ++ recordBytes rs' = [] := h'.bytes.trans h.bytes.symm
      exact absurd (List.append_eq_nil_iff.mp hnil).1 hr'.ne_nil
  | cons r rs ih =>
    obtain ⟨⟨room, hr⟩, hrs⟩ := List.forall_mem_cons.mp h.complete
    cases rs' with
    | nil =>
      have hnil : r.2 ++ recordBytes rs = [] := h.bytes.trans h'.bytes.symm
      exact absurd (List.append_eq_nil_iff.mp hnil).1 hr.ne_nil
    | cons r' rs' =>
      obtain ⟨⟨room', hr'⟩, hrs'⟩ := List.forall_mem_cons.mp h'.complete
      have heq : r.2 ++ recordBytes rs = r'.2 ++ recordBytes rs' := h.bytes.trans h'.bytes.symm
      obtain ⟨hnumber, hform, hrest⟩ := hr.unique hr' heq
      rw [Prod.ext hnumber hform, ih ⟨hrs, rfl⟩ ⟨hrs', hrest.symm⟩]

/-- Bytes that merge are complete records. -/
theorem of_merge (h : (merge S nesting m bs).error? = none) : ∃ rs, SplitsInto bs rs := by
  induction h using merge_induction with
  | nil => exact ⟨[], .nil⟩
  | @record _ _ _ form _ _ hform _ _ _ ih =>
    obtain ⟨rs, hrs⟩ := ih
    obtain ⟨n, hcomplete, _⟩ := hform.complete
    exact ⟨(n, form) :: rs, hrs.cons hcomplete⟩

end SplitsInto

/-- A proper prefix of records, one behind the other, ends inside one of them or right in front of
it. -/
theorem exists_cut (hp : p <+: recordBytes rs) (hne : p ≠ recordBytes rs) :
    ∃ u r v c, rs = u ++ r :: v ∧ p = recordBytes u ++ c ∧ c <+: r.2 ∧ c ≠ r.2 := by
  induction rs generalizing p with
  | nil => exact absurd (List.prefix_nil.mp hp) hne
  | cons r rs ih =>
    rw [recordBytes_cons] at hp hne
    by_cases hwhole : r.2 <+: p
    · obtain ⟨q, rfl⟩ := hwhole
      obtain ⟨u, r', v, c, rfl, rfl, hc, hcne⟩ :=
        ih ((List.prefix_append_right_inj _).mp hp) (by simpa using hne)
      exact ⟨r :: u, r', v, c, rfl, by simp, hc, hcne⟩
    · have hshort : p <+: r.2 :=
        (List.prefix_or_prefix_of_prefix hp (List.prefix_append _ _)).resolve_right hwhole
      exact ⟨[], r, rs, p, rfl, rfl, hshort, fun h => hwhole (h ▸ List.prefix_rfl)⟩

/-! ### Merging what is cut off -/

/-- No part of a record reads as one. -/
theorem Record.read_truncated (hform : RecordForm room n form) (hc : c <+: form) (hne : c ≠ form)
    (T : MessageType) (nesting : Nesting) :
    ∃ e rest, Record.read T nesting c = .error e rest := by
  cases hread : Record.read T nesting c with
  | error e rest => exact ⟨e, rest, rfl⟩
  | ok r rest =>
    obtain ⟨cut, rfl⟩ := hc
    obtain ⟨form', hform', rfl⟩ := (Record.reads_read T nesting).form hread
    obtain ⟨n', hcomplete, _⟩ := hform'.complete
    have heq : form' ++ rest ++ cut ++ [] = form' ++ (rest ++ cut) := by simp
    obtain ⟨_, _, hnil⟩ := hform.unique hcomplete heq
    obtain ⟨_, rfl⟩ := List.append_eq_nil_iff.mp hnil.symm
    exact absurd (List.append_nil _).symm hne

theorem Steps.of_append (h : Steps S nesting (u ++ v) m m') : ∃ m₁, Steps S nesting u m m₁ := by
  induction u generalizing m with
  | nil => exact ⟨m, .nil⟩
  | cons r u ih =>
    cases h with
    | cons head tail =>
      obtain ⟨m₁, hu⟩ := ih tail
      exact ⟨m₁, .cons head hu⟩

/-- The errors that call for more input, one by one. -/
theorem DecodeError.wantsMore_iff {e : DecodeError} : e.wantsMore ↔
    e = .buffer .endOfBuffer ∨ (∃ length remaining, e = .lengthOverflow length remaining) ∨
      ∃ number, e = .unterminatedGroup number := by
  cases e with
  | buffer cause => cases cause <;> simp [wantsMore, BufferError.wantsMore]
  | _ => simp [wantsMore]

/-- On a prefix of bytes that merge, only the want of more input is an error. -/
theorem wantsMore_of_truncated {e : DecodeError} (h : (merge S nesting m b).error? = none)
    (hp : p <+: b) (he : (merge S nesting m p).error? = some e) : e.wantsMore := by
  obtain ⟨cut, rfl⟩ := hp
  cases hwants : e.wantsMore with
  | true => rfl
  | false =>
    rw [merge_append_error he hwants] at h
    cases h

/-- Behind complete records, a part of another one: the records merge, and the part fails unless it
is empty. -/
theorem merge_cut (hu : Steps S nesting u m m') (hr : RecordForm room r.1 r.2) (hc : c <+: r.2)
    (hne : c ≠ r.2) :
    (merge S nesting m (recordBytes u ++ c)).message = m' ∧
      ((merge S nesting m (recordBytes u ++ c)).error? = none ↔ c = []) := by
  rw [merge_append (by rw [hu.merge]), hu.merge]
  by_cases hnil : c = []
  · subst hnil
    simp
  · obtain ⟨e, rest, hread⟩ := Record.read_truncated hr hc hne (S.type m'.type) nesting
    rw [merge_error hnil hread]
    simp [hnil]

/-- Bytes that merge split into complete records, in one way only. A proper prefix of them merges
just when it is empty or ends between two of these records. Otherwise it fails, for want of input,
and either way the message is what the records that the prefix holds as a whole make of it. -/
theorem truncation_detected (h : (merge S nesting m b).error? = none) :
    ∃ rs, SplitsInto b rs ∧ (∀ rs', SplitsInto b rs' → rs' = rs) ∧
      ∀ p, p <+: b → p ≠ b →
        ((merge S nesting m p).error? = none ↔ p = [] ∨ EndsBetween rs p) ∧
        (∀ e, (merge S nesting m p).error? = some e →
          e = .buffer .endOfBuffer ∨
            (∃ length remaining, e = .lengthOverflow length remaining) ∨
              ∃ number, e = .unterminatedGroup number) ∧
        ∃ u r v, rs = u ++ r :: v ∧ recordBytes u <+: p ∧ ¬recordBytes (u ++ [r]) <+: p ∧
          merge S nesting m (recordBytes u) = ⟨(merge S nesting m p).message, [], none⟩ := by
  obtain ⟨rs, hrs⟩ := SplitsInto.of_merge h
  refine ⟨rs, hrs, fun rs' hrs' => hrs'.unique hrs, fun p hp hne => ?_⟩
  obtain ⟨m', hsteps⟩ : ∃ m', Steps S nesting rs m m' :=
    Steps.of_merge hrs.complete (hrs.bytes.symm ▸ h)
  have hwants (e : DecodeError) (he : (merge S nesting m p).error? = some e) :=
    DecodeError.wantsMore_iff.mp (wantsMore_of_truncated h hp he)
  -- behind the whole records `u` the prefix has a part `c` of the record `r`
  obtain ⟨u, r, v, c, rfl, rfl, hc, hcne⟩ :=
    exists_cut (hrs.bytes.symm ▸ hp) (hrs.bytes.symm ▸ hne)
  obtain ⟨m₁, hu⟩ := hsteps.of_append
  obtain ⟨room, hr⟩ := hrs.complete r (by simp)
  obtain ⟨hmessage, herror⟩ := merge_cut hu hr hc hcne
  refine ⟨herror.trans ⟨?_, ?_⟩, hwants, u, r, v, rfl, List.prefix_append _ _, ?_, ?_⟩
  · rintro rfl
    by_cases hnil : u = []
    · exact .inl (by simp [hnil])
    · exact .inr ⟨u, r :: v, rfl, hnil, by simp, by simp⟩
  · rintro (hnil | ⟨u', v', hsplit, _, _, hbytes⟩)
    · exact (List.append_eq_nil_iff.mp hnil).2
    · obtain ⟨m₂, hu'⟩ := (hsplit ▸ hsteps).of_append
      exact herror.mp (by rw [hbytes, hu'.merge])
  · -- with all of `r` in the prefix, nothing of it would be cut off
    intro hall
    have hwhole : r.2 <+: c := by simpa using hall
    exact hcne (hc.eq_of_length_le hwhole.length_le)
  · rw [hu.merge, hmessage]

section

open Vision

/-- A name and an unknown group: the group cut off behind its first field wants more input. -/
theorem truncation_detected_group :
    (merge schema Limits.default.nesting (.empty TypeName.operation.id)
        [10, 1, 120, 75, 8, 1, 76]).error? = none ∧
      ∀ e, (merge schema Limits.default.nesting (.empty TypeName.operation.id)
          [10, 1, 120, 75, 8, 1]).error? = some e →
        e = .buffer .endOfBuffer ∨
          (∃ length remaining, e = .lengthOverflow length remaining) ∨
            ∃ number, e = .unterminatedGroup number := by
  have hmerges : (merge schema Limits.default.nesting (.empty TypeName.operation.id)
      [10, 1, 120, 75, 8, 1, 76]).error? = none := by
    have hgroup : Record.read (schema.type TypeName.operation.id) Limits.default.nesting
        [75, 8, 1, 76] = .ok .unknown [] := by
      cbv
    rw [show ([10, 1, 120, 75, 8, 1, 76] : List UInt8) = [10, 1, 120] ++ [75, 8, 1, 76] from rfl,
      merge_append (by cbv), merge_record (by rwa [type_merge]), Message.after]
    simp only [merge_nil]
  obtain ⟨rs, _, _, htruncated⟩ := truncation_detected hmerges
  exact ⟨hmerges, (htruncated [10, 1, 120, 75, 8, 1] ⟨[76], rfl⟩ (by decide)).2.1⟩

end

end Protowire
