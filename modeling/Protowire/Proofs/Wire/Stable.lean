import Protowire.Proofs.Wire.Groups

/-!
Errors that more input would not have helped. A reader fails for want of input, or else it fails in
the same way on every longer input. Together with `Reads.append` for the successes this says what a
reader does on `bs ++ more` when it is known what it does on `bs`.
-/

namespace Protowire

/-- Whether the input was too short. -/
def BufferError.wantsMore : BufferError → Bool
  | endOfBuffer => true
  | invalidUtf8 | varintOverflow => false

/-- Whether the input was too short. -/
def DecodeError.wantsMore : DecodeError → Bool
  | buffer cause => cause.wantsMore
  | lengthOverflow _ _ | unterminatedGroup _ => true
  | _ => false

namespace Reader

variable {ε ε' α β : Type} {wants : ε → Bool} {wants' : ε' → Bool}

/-- Other errors than for want of input stay on a longer input. -/
def Stable (wants : ε → Bool) (r : Reader ε α) : Prop :=
  ∀ bs e rest more, r bs = .error e rest → wants e = false →
    r (bs ++ more) = .error e (rest ++ more)

theorem Stable.map {r : Reader ε α} (h : Stable wants r) (f : α → β) : Stable wants (f <$> r) := by
  intro bs e rest more heq he
  simp only [Functor.map, EStateM.map] at heq ⊢
  split at heq
  · cases heq
  · rename_i hr
    cases heq
    rw [h _ _ _ more hr he]

theorem Stable.mapError {r : Reader ε α} (h : Stable wants r) {f : ε → ε'}
    (hf : ∀ e, wants e = true → wants' (f e) = true) : Stable wants' (mapError f r) := by
  intro bs e rest more heq he
  simp only [Reader.mapError] at heq ⊢
  split at heq
  · cases heq
  · rename_i e' _ hr
    cases heq
    -- a renaming may only ever call for more input where there was a call for it
    have he' : wants e' = false := by
      cases hw : wants e'
      · rfl
      · rw [hf e' hw] at he
        cases he
    rw [h _ _ _ more hr he']

theorem stable_take (n : Nat) : Stable BufferError.wantsMore (take n) := by
  intro bs e rest more h he
  simp only [take] at h
  split at h <;> cases h
  cases he

theorem stable_utf8 (n : Nat) : Stable BufferError.wantsMore (utf8 n) := by
  intro bs e rest more h he
  simp only [utf8] at h ⊢
  split at h
  · rename_i ht
    cases h
    rw [stable_take n _ _ _ more ht he]
  · rename_i ht
    split at h
    · cases h
    · rename_i hs
      cases h
      rw [(reads_take n).append ht more]
      simp only [hs]

end Reader

theorem Varint.stable_readUpTo (more : Nat) :
    Reader.Stable BufferError.wantsMore (Varint.readUpTo more) := by
  induction more with
  | zero =>
    intro bs e rest after h he
    cases bs with
    | nil => cases h; cases he
    | cons b bs =>
      simp only [readUpTo, List.cons_append] at h ⊢
      split at h
      · cases h
      · rename_i hb
        cases h
        rw [if_neg hb]
  | succ more ih =>
    intro bs e rest after h he
    cases bs with
    | nil => cases h; cases he
    | cons b bs =>
      simp only [readUpTo, List.cons_append] at h ⊢
      split at h
      · cases h
      · rename_i hb
        split at h
        · cases h
        · rename_i hr
          cases h
          rw [if_neg hb, ih _ _ _ after hr he]

namespace Wire

open Reader

theorem stable_buffer {α : Type} {r : Reader BufferError α} (h : Stable BufferError.wantsMore r) :
    Stable DecodeError.wantsMore (mapError .buffer r) :=
  h.mapError fun _ h => h

theorem stable_readVarint : Stable DecodeError.wantsMore readVarint :=
  stable_buffer (Varint.stable_readUpTo 9)

theorem stable_readTag : Stable DecodeError.wantsMore readTag := by
  intro bs e rest more h he
  simp only [readTag] at h ⊢
  split at h
  · rename_i hv
    cases h
    rw [stable_readVarint _ _ _ more hv he]
  · rename_i hv
    rw [reads_readVarint.append hv more]
    split at h
    · rename_i hw
      cases h
      simp only [hw, ↓reduceIte]
    · split at h
      · rename_i hw hmin
        cases h
        simp only [hw, hmin, ↓reduceIte]
      · split at h
        · cases h
        · rename_i hw hmin _ hcode
          cases h
          simp only [hw, hmin, hcode, ↓reduceIte]

/-- A length that is too large for what is left wants more input. -/
theorem stable_readLength : Stable DecodeError.wantsMore readLength := by
  intro bs e rest more h he
  simp only [readLength] at h ⊢
  split at h
  · rename_i hv
    cases h
    rw [stable_readVarint _ _ _ more hv he]
  · split at h
    · cases h
      cases he
    · cases h

theorem readLength_append {bs rest : List UInt8} {n : Nat} (h : readLength bs = .ok n rest)
    (more : List UInt8) : readLength (bs ++ more) = .ok n (rest ++ more) := by
  obtain ⟨hle, form, hform, rfl⟩ := readLength_eq_ok_iff.mp h
  refine readLength_eq_ok_iff.mpr ⟨?_, form, hform, List.append_assoc ..⟩
  simp only [List.length_append]
  omega

/-- What is read behind a length may be anything that is itself stable. -/
theorem stable_behindLength {α : Type} {r : Nat → Reader DecodeError α}
    (h : ∀ n, Stable DecodeError.wantsMore (r n)) :
    Stable DecodeError.wantsMore (readLength >>= r) := by
  intro bs e rest more heq he
  simp only [bind, EStateM.bind] at heq ⊢
  split at heq
  · rename_i hn
    rw [readLength_append hn more]
    exact h _ _ _ _ more heq he
  · rename_i hn
    cases heq
    rw [stable_readLength _ _ _ more hn he]

theorem stable_readBytes : Stable DecodeError.wantsMore readBytes :=
  stable_behindLength fun n => stable_buffer (stable_take n)

theorem stable_readString : Stable DecodeError.wantsMore readString :=
  stable_behindLength fun n => stable_buffer (stable_utf8 n)

theorem stable_fixed (width : Nat) :
    Stable DecodeError.wantsMore (mapError .buffer (fixed width)) :=
  stable_buffer ((stable_take width).map _)

theorem stable_readNested (nesting : Nesting) :
    Stable DecodeError.wantsMore (readNested nesting) := by
  intro bs e rest more h he
  simp only [readNested] at h ⊢
  split at h
  · rename_i hlimit
    cases h
    rw [if_pos hlimit]
  · rename_i hlimit
    rw [if_neg hlimit]
    exact stable_readBytes.map _ _ _ _ more h he

theorem stable_skipPlain (number : Nat) (wire : WireType) :
    Stable DecodeError.wantsMore (skipPlain number wire) := by
  cases wire with
  | varint => exact stable_readVarint.map _
  | fixed64 | fixed32 => exact stable_buffer ((stable_take _).map _)
  | lengthDelimited => exact stable_readBytes.map _
  | startGroup | endGroup =>
    intro bs e rest more h _
    cases h
    rfl

theorem stable_skipGroups (nesting : Nesting) (opened : List Nat) :
    Stable DecodeError.wantsMore (skipGroups nesting opened) := by
  intro bs e rest more h he
  -- the cases of a failure end here and now; the others go on behind what they have read
  fun_induction skipGroups nesting opened bs with
  | case1 => cases h
  | case2 => cases h; cases he
  | case3 number outer b bs e' r ht =>
    cases h
    have ht' := stable_readTag _ _ _ more ht he
    rw [List.cons_append] at ht' ⊢
    rw [skipGroups]
    split <;> simp_all
  | case4 outer b bs inner r ht ih =>
    obtain ⟨tag, htag, hbs⟩ := reads_readTag.form ht
    rw [hbs, List.append_assoc, skipGroups_close htag]
    exact ih h
  | case5 number outer b bs inner r ht hne =>
    cases h
    have ht' := reads_readTag.append ht more
    rw [List.cons_append] at ht' ⊢
    rw [skipGroups]
    split <;> simp_all
  | case6 number outer b bs inner r ht hlimit =>
    cases h
    have ht' := reads_readTag.append ht more
    rw [List.cons_append] at ht' ⊢
    rw [skipGroups]
    split <;> simp_all
  | case7 number outer b bs inner r ht hlimit ih =>
    obtain ⟨tag, htag, hbs⟩ := reads_readTag.form ht
    rw [hbs, List.append_assoc, skipGroups_open htag (by omega)]
    exact ih h
  | case8 number outer b bs inner wire r hend hstart ht e' r' hs =>
    cases h
    have ht' := reads_readTag.append ht more
    have hs' := stable_skipPlain _ _ _ _ _ more hs he
    rw [List.cons_append] at ht' ⊢
    rw [skipGroups]
    split <;> simp_all
    split <;> simp_all
  | case9 number outer b bs inner wire r _ _ ht r' hs ih =>
    obtain ⟨tag, htag, hbs⟩ := reads_readTag.form ht
    obtain ⟨value, hvalue, rfl⟩ := (reads_skipPlain _ _).form hs
    rw [hbs, List.append_assoc, List.append_assoc, skipGroups_plain htag hvalue]
    exact ih h

theorem stable_skipField (nesting : Nesting) (number : Nat) (wire : WireType) :
    Stable DecodeError.wantsMore (skipField nesting number wire) := by
  intro bs e rest more h he
  simp only [skipField] at h ⊢
  split at h
  · rename_i hwire
    rw [if_pos hwire]
    split at h
    · rename_i hlimit
      cases h
      rw [if_pos hlimit]
    · rename_i hlimit
      rw [if_neg hlimit]
      exact stable_skipGroups _ _ _ _ _ more h he
  · rename_i hwire
    rw [if_neg hwire]
    exact stable_skipPlain _ _ _ _ _ more h he

end Wire

theorem Scalar.stable_read (s : Scalar) : Reader.Stable DecodeError.wantsMore s.read := by
  cases s with
  | int32 | int64 | uint32 | uint64 | sint32 | sint64 | bool | enum =>
    exact (Wire.stable_readVarint.map _).map _
  | fixed32 | sfixed32 | float | fixed64 | sfixed64 | double =>
    exact ((Wire.stable_fixed _).map _).map _
  | string => exact Wire.stable_readString.map _
  | bytes => exact Wire.stable_readBytes.map _

end Protowire
