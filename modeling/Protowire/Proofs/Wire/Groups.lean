import Protowire.Proofs.Wire.Forms

/-!
What may stand in place of a value whose field is not declared. Such a value is told apart by its
wire type alone; a group is a run of records, each with a tag of its own, up to the tag that closes
the group. Main statement: skipping takes exactly these values (`reads_skipField`).
-/

namespace Protowire

/-- How many more messages and groups may be opened. -/
def Nesting.room (nesting : Nesting) : Nat := nesting.limit - nesting.depth

@[simp] theorem Nesting.room_deeper (nesting : Nesting) :
    nesting.deeper.room = nesting.room - 1 := by
  simp only [room, deeper]
  omega

namespace Wire

open Reader

/-- The forms of a value that is no group. -/
def PlainForm : WireType → List UInt8 → Prop
  | .varint, form => ∃ n, Varint.Form form n
  | .fixed64, form => form.length = 8
  | .lengthDelimited, form => ∃ body, DelimitedForm form body
  | .fixed32, form => form.length = 4
  | .startGroup, _ | .endGroup, _ => False

/-- Runs of complete records with any numbers, with at most `room` groups open at once. -/
inductive RunForm : (room : Nat) → List UInt8 → Prop
  | nil {room : Nat} : RunForm room []
  | plain {room number : Nat} {wire : WireType} {tag value rest : List UInt8}
    (htag : TagForm tag (number, wire)) (hvalue : PlainForm wire value)
    (hrest : RunForm room rest) :
    RunForm room (tag ++ (value ++ rest))
  | group {room number : Nat} {tag body close rest : List UInt8}
    (htag : TagForm tag (number, .startGroup)) (hbody : RunForm room body)
    (hclose : TagForm close (number, .endGroup)) (hrest : RunForm (room + 1) rest) :
    RunForm (room + 1) (tag ++ (body ++ (close ++ rest)))

/-- The forms of a value behind a tag with this number and wire type. -/
def ValueForm (room number : Nat) (wire : WireType) (form : List UInt8) : Prop :=
  if wire = .startGroup then
    0 < room ∧ ∃ body close, RunForm (room - 1) body ∧ TagForm close (number, .endGroup) ∧
      form = body ++ close
  else PlainForm wire form

theorem PlainForm.value {wire : WireType} {form : List UInt8} (h : PlainForm wire form)
    (room number : Nat) : ValueForm room number wire form := by
  rw [ValueForm, if_neg]
  · exact h
  · rintro rfl
    exact h

/-- Where more groups may be open, runs stay runs. -/
theorem RunForm.mono {room room' : Nat} {form : List UInt8} (h : RunForm room form)
    (hroom : room ≤ room') : RunForm room' form := by
  induction h generalizing room' with
  | nil => exact .nil
  | plain htag hvalue _ ih => exact .plain htag hvalue (ih hroom)
  | @group room number tag body close rest htag _ hclose _ ihbody ihrest =>
    obtain ⟨inner, rfl⟩ : ∃ inner, room' = inner + 1 := ⟨room' - 1, by omega⟩
    exact .group htag (ihbody (by omega)) hclose (ihrest hroom)

theorem ValueForm.mono {room room' number : Nat} {wire : WireType} {form : List UInt8}
    (h : ValueForm room number wire form) (hroom : room ≤ room') :
    ValueForm room' number wire form := by
  rw [ValueForm] at h ⊢
  split at h
  · rename_i hwire
    obtain ⟨hpos, body, close, hbody, hclose, rfl⟩ := h
    rw [if_pos hwire]
    exact ⟨by omega, body, close, hbody.mono (by omega), hclose, rfl⟩
  · rename_i hwire
    rwa [if_neg hwire]

theorem reads_skipPlain (number : Nat) (wire : WireType) :
    Reads (skipPlain number wire) (fun form _ => PlainForm wire form) := by
  cases wire with
  | varint => exact (reads_readVarint.map _).congr (by simp [PlainForm])
  | fixed64 => exact (reads_skip 8).mapError _
  | lengthDelimited => exact (reads_readBytes.map _).congr (by simp [PlainForm])
  | fixed32 => exact (reads_skip 4).mapError _
  | startGroup | endGroup =>
    intro bs u rest
    simp only [PlainForm, false_and, exists_false, iff_false]
    intro h
    cases h

/-- What is left of the groups `opened`, innermost first: for each a run and its closing tag. -/
def ClosingForm (nesting : Nesting) : (opened : List Nat) → List UInt8 → Prop
  | [], form => form = []
  | number :: outer, form =>
    ∃ body close rest, RunForm (nesting.limit - (nesting.depth + (outer.length + 1))) body ∧
      TagForm close (number, .endGroup) ∧ ClosingForm nesting outer rest ∧
        form = body ++ (close ++ rest)

theorem closingForm_of_skipGroups {nesting : Nesting} {opened : List Nat} {bs rest : List UInt8}
    (h : skipGroups nesting opened bs = .ok () rest) :
    ∃ form, ClosingForm nesting opened form ∧ bs = form ++ rest := by
  fun_induction skipGroups nesting opened bs with
  | case1 => cases h; exact ⟨[], rfl, rfl⟩
  | case2 => cases h
  | case3 => cases h
  | case4 number outer b bs r ht ih =>
    obtain ⟨close, hclose, hbs⟩ := reads_readTag.form ht
    obtain ⟨form, hform, rfl⟩ := ih h
    exact ⟨close ++ form, ⟨[], close, form, .nil, hclose, hform, rfl⟩, by rw [hbs]; simp⟩
  | case5 => cases h
  | case6 => cases h
  | case7 number outer b bs inner r ht hroom ih =>
    obtain ⟨tag, htag, hbs⟩ := reads_readTag.form ht
    obtain ⟨_, ⟨body, close, _, hbody, hclose, hclosing, rfl⟩, rfl⟩ := ih h
    obtain ⟨body', close', tail, hbody', hclose', htail, rfl⟩ := hclosing
    refine ⟨(tag ++ (body ++ (close ++ body'))) ++ (close' ++ tail),
      ⟨_, close', tail, ?_, hclose', htail, rfl⟩, by rw [hbs]; simp⟩
    -- the groups open around the inner run are one more than around what follows it
    obtain ⟨room, hr⟩ : ∃ room, nesting.limit - (nesting.depth + (outer.length + 1)) = room + 1 :=
      ⟨nesting.limit - (nesting.depth + (outer.length + 1)) - 1, by omega⟩
    rw [hr] at hbody' ⊢
    refine .group htag ?_ hclose hbody'
    have : nesting.limit - (nesting.depth + ((number :: outer).length + 1)) = room := by
      simp only [List.length_cons]
      omega
    exact this ▸ hbody
  | case8 => cases h
  | case9 number outer b bs inner wire r _ _ ht r' hs ih =>
    obtain ⟨tag, htag, hbs⟩ := reads_readTag.form ht
    obtain ⟨value, hvalue, rfl⟩ := (reads_skipPlain _ _).form hs
    obtain ⟨_, ⟨body, close, tail, hbody, hclose, htail, rfl⟩, rfl⟩ := ih h
    exact ⟨(tag ++ (value ++ body)) ++ (close ++ tail),
      ⟨_, close, tail, .plain htag hvalue hbody, hclose, htail, rfl⟩, by rw [hbs]; simp⟩

/-! ### Skipping what is there

One step for each kind of tag, and from these whole runs: the groups that stay open around a run do
not take part in skipping it. -/

theorem TagForm.append_eq_cons {tag : List UInt8} {t : Nat × WireType} (h : TagForm tag t)
    (rest : List UInt8) : ∃ b bs, tag ++ rest = b :: bs := by
  obtain ⟨word, hword, _⟩ := h
  have := hword.length_pos
  exact List.exists_cons_of_length_pos (by simp only [List.length_append]; omega)

section

variable {nesting : Nesting} {number inner : Nat} {outer : List Nat} {tag : List UInt8}

theorem skipGroups_close (htag : TagForm tag (number, .endGroup)) (rest : List UInt8) :
    skipGroups nesting (number :: outer) (tag ++ rest) = skipGroups nesting outer rest := by
  have ht := reads_readTag.ok htag rest
  obtain ⟨b, bs, hbs⟩ := htag.append_eq_cons rest
  rw [hbs] at ht ⊢
  rw [skipGroups]
  split <;> simp_all

theorem skipGroups_open (htag : TagForm tag (inner, .startGroup))
    (hroom : nesting.depth + (outer.length + 1) < nesting.limit) (rest : List UInt8) :
    skipGroups nesting (number :: outer) (tag ++ rest) =
      skipGroups nesting (inner :: number :: outer) rest := by
  have ht := reads_readTag.ok htag rest
  have hopen : ¬ nesting.limit ≤ nesting.depth + (outer.length + 1) := by omega
  obtain ⟨b, bs, hbs⟩ := htag.append_eq_cons rest
  rw [hbs] at ht ⊢
  rw [skipGroups]
  simp only [hopen, ↓reduceIte]
  split <;> simp_all

theorem skipGroups_plain {wire : WireType} {value : List UInt8} (htag : TagForm tag (inner, wire))
    (hvalue : PlainForm wire value) (rest : List UInt8) :
    skipGroups nesting (number :: outer) (tag ++ (value ++ rest)) =
      skipGroups nesting (number :: outer) rest := by
  have ht := reads_readTag.ok htag (value ++ rest)
  have hs : skipPlain inner wire (value ++ rest) = .ok () rest :=
    (reads_skipPlain inner wire).ok hvalue rest
  have hstart : wire ≠ .startGroup := by rintro rfl; exact hvalue
  have hend : wire ≠ .endGroup := by rintro rfl; exact hvalue
  obtain ⟨b, bs, hbs⟩ := htag.append_eq_cons (value ++ rest)
  rw [hbs] at ht ⊢
  rw [skipGroups]
  split <;> simp_all
  split <;> simp_all

end

theorem skipGroups_run {nesting : Nesting} {room number : Nat} {outer : List Nat}
    {run : List UInt8} (h : RunForm room run)
    (hroom : room ≤ nesting.limit - (nesting.depth + (outer.length + 1))) (rest : List UInt8) :
    skipGroups nesting (number :: outer) (run ++ rest) =
      skipGroups nesting (number :: outer) rest := by
  induction h generalizing number outer rest with
  | nil => rfl
  | plain htag hvalue _ ih =>
    rw [List.append_assoc, List.append_assoc, skipGroups_plain htag hvalue, ih hroom]
  | group htag _ hclose _ ihbody ihrest =>
    have hinner : nesting.limit - (nesting.depth + ((number :: outer).length + 1)) =
        nesting.limit - (nesting.depth + (outer.length + 1)) - 1 := by
      simp only [List.length_cons]
      omega
    rw [List.append_assoc, List.append_assoc, List.append_assoc,
      skipGroups_open htag (by omega), ihbody (by omega), skipGroups_close hclose, ihrest hroom]

theorem skipGroups_of_closingForm {nesting : Nesting} {opened : List Nat} {form : List UInt8}
    (h : ClosingForm nesting opened form) (rest : List UInt8) :
    skipGroups nesting opened (form ++ rest) = .ok () rest := by
  induction opened generalizing form with
  | nil =>
    obtain rfl : form = [] := h
    rw [List.nil_append, skipGroups]
  | cons number outer ih =>
    obtain ⟨body, close, tail, hbody, hclose, htail, rfl⟩ := h
    rw [List.append_assoc, List.append_assoc, skipGroups_run hbody (Nat.le_refl _),
      skipGroups_close hclose, ih htail]

theorem reads_skipGroups (nesting : Nesting) (opened : List Nat) :
    Reads (skipGroups nesting opened) (fun form _ => ClosingForm nesting opened form) := by
  intro bs u rest
  constructor
  · exact closingForm_of_skipGroups
  · rintro ⟨form, hform, rfl⟩
    exact skipGroups_of_closingForm hform rest

/-- Skipping takes exactly the values of the wire type, with groups nested as far as room is left.
-/
theorem reads_skipField (nesting : Nesting) (number : Nat) (wire : WireType) :
    Reads (skipField nesting number wire)
      (fun form _ => ValueForm nesting.room number wire form) := by
  intro bs u rest
  simp only [skipField, ValueForm]
  split
  · rw [Nesting.room]
    split
    · simp only [reduceCtorEq, false_iff]
      rintro ⟨_, ⟨hroom, _⟩, _⟩
      omega
    · rename_i hroom
      rw [reads_skipGroups nesting [number] bs u rest]
      have hpos : 0 < nesting.limit - nesting.depth := by omega
      simp [ClosingForm, hpos, Nat.sub_sub]
  · exact reads_skipPlain number wire bs u rest

/-- Where a value ends does not depend on how many groups may be open in it. -/
theorem ValueForm.unique {room room' number : Nat} {wire : WireType}
    {form form' rest rest' : List UInt8} (h : ValueForm room number wire form)
    (h' : ValueForm room' number wire form') (heq : form ++ rest = form' ++ rest') :
    form = form' ∧ rest = rest' := by
  have hreads := reads_skipField ⟨0, max room room'⟩ number wire
  have hskip := hreads.ok (a := ()) (h.mono (Nat.le_max_left ..)) rest
  have hskip' := hreads.ok (a := ()) (h'.mono (Nat.le_max_right ..)) rest'
  rw [heq, hskip'] at hskip
  cases hskip
  exact ⟨List.append_cancel_right heq, rfl⟩

end Wire

end Protowire
