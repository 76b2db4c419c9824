import Protowire.Proofs.Wire.Groups
import Protowire.Wire.Cursor

/-!
Skipping with a counter recognises the values of a wire type, and the counter tells the truth. The
counter comes back to where it was whatever happens inside a group (`restores_skipValue`), and so it
is the number of groups that are open; hence a cursor skips as the reader does that has this number
as an argument (`skipValue_eq`), and what that reader takes is known.
-/

namespace Protowire

namespace Wire

open Reader

variable {limit depth : UInt32} {number : Nat} {wire : WireType} {bs : List UInt8}

/-- The counter is back at `depth`, and whatever it should have shown in between lies between zero
and the limit. -/
structure Skipped.Restores (limit depth : UInt32) (s : Skipped bs) : Prop where
  depth : s.depth = depth
  counts : ∀ i ∈ s.counts, 0 ≤ i ∧ i ≤ (limit.toNat : Int)

/-- Goes on with a reader behind what was skipped. -/
def Skipped.andThen (s : Skipped bs) (next : Reader DecodeError Unit) :
    EStateM.Result DecodeError (List UInt8) Unit :=
  match s.result with
  | .error e => .error e s.rest
  | .ok () => next s.rest

/-- There is no wrapping under a limit of the same width. -/
theorem toNat_add_one_of_lt (h : depth < limit) : (depth + 1).toNat = depth.toNat + 1 := by
  have hlt := UInt32.lt_iff_toNat_lt.mp h
  have hword := limit.toNat_lt
  rw [UInt32.toNat_add, UInt32.toNat_one]
  omega

/-! ### The counter -/

mutual

theorem restores_skipValue (limit depth : UInt32) (number : Nat) (wire : WireType)
    (bs : List UInt8) : (skipValue limit depth number wire bs).Restores limit depth := by
  fun_cases skipValue limit depth number wire bs with
  | case1 => exact ⟨rfl, by simp⟩
  | case2 _ hopen inside =>
    obtain ⟨hdepth, hcounts⟩ := restores_skipRecords limit (depth + 1) number bs
    have hlt : depth < limit := UInt32.not_le.mp hopen
    have hadd := toNat_add_one_of_lt hlt
    have hlimit := UInt32.lt_iff_toNat_lt.mp hlt
    refine ⟨?_, fun i hi => ?_⟩
    · show inside.depth - 1 = depth
      rw [hdepth, UInt32.add_sub_cancel]
    · simp only [inside, hdepth, hadd, List.mem_cons, List.mem_append, List.not_mem_nil,
        or_false] at hi
      obtain rfl | hi | rfl := hi
      · omega
      · exact hcounts i hi
      · omega
  | case3 => exact ⟨rfl, by simp⟩
  | case4 => exact ⟨rfl, by simp⟩
termination_by (bs.length, 1)

theorem restores_skipRecords (limit depth : UInt32) (number : Nat) (bs : List UInt8) :
    (skipRecords limit depth number bs).Restores limit depth := by
  fun_cases skipRecords limit depth number bs with
  | case1 => exact ⟨rfl, by simp⟩
  | case2 => exact ⟨rfl, by simp⟩
  | case3 => exact ⟨rfl, by simp⟩
  | case4 => exact ⟨rfl, by simp⟩
  | case5 _ inner wire rest ht tagged _ value _ hv =>
    obtain ⟨hdepth, hcounts⟩ := restores_skipValue limit depth inner wire rest
    exact ⟨hdepth, hcounts⟩
  | case6 _ inner wire rest ht tagged _ value hv skipped more =>
    obtain ⟨hdepth, hcounts⟩ := restores_skipValue limit depth inner wire rest
    obtain ⟨hdepth', hcounts'⟩ := restores_skipRecords limit value.depth number value.rest
    refine ⟨hdepth'.trans hdepth, fun i hi => ?_⟩
    exact (List.mem_append.mp hi).elim (hcounts i) (hcounts' i)
termination_by (bs.length, 0)
decreasing_by
  · exact Prod.Lex.left _ _ tagged
  · exact Prod.Lex.left _ _ tagged
  · exact Prod.Lex.left _ _ (Nat.lt_of_le_of_lt skipped tagged)

end

/-! ### Open groups in a list -/

variable {nesting : Nesting} {outer : List Nat}

theorem skipGroups_cons (hne : ¬bs.isEmpty) :
    skipGroups nesting (number :: outer) bs =
      match readTag bs with
      | .error e rest => .error e rest
      | .ok (inner, wire) rest =>
        if wire = .endGroup then
          if inner = number then skipGroups nesting outer rest
          else .error (.unexpectedEndGroup inner) rest
        else if wire = .startGroup then
          if nesting.limit ≤ nesting.depth + (outer.length + 1) then
            .error (.recursionLimitExceeded nesting.limit) rest
          else skipGroups nesting (inner :: number :: outer) rest
        else
          match skipPlain inner wire rest with
          | .error e rest' => .error e rest'
          | .ok () rest' => skipGroups nesting (number :: outer) rest' := by
  cases bs with
  | nil => simp at hne
  | cons b bs =>
    rw [skipGroups]
    split <;> simp_all
    split <;> simp_all

/-- A value inside the innermost open group. Of a group in it, its records are known to be skipped
as in the list of groups. -/
theorem skipGroups_value {inner : Nat} {rest : List UInt8} (hne : ¬bs.isEmpty)
    (ht : readTag bs = .ok (inner, wire) rest) (hend : wire ≠ .endGroup)
    (hlimit : nesting.limit = limit.toNat)
    (hdepth : nesting.depth + (outer.length + 1) = depth.toNat)
    (hinside : depth < limit → skipGroups nesting (inner :: number :: outer) rest =
      (skipRecords limit (depth + 1) inner rest).andThen (skipGroups nesting (number :: outer))) :
    skipGroups nesting (number :: outer) bs =
      (skipValue limit depth inner wire rest).andThen (skipGroups nesting (number :: outer)) := by
  rw [skipGroups_cons hne, ht, hlimit, hdepth]
  simp only [hend, ↓reduceIte]
  fun_cases skipValue limit depth inner wire rest with
  | case1 hwire hclosed =>
    rw [if_pos hwire, if_pos (UInt32.le_iff_toNat_le.mp hclosed)]
    rfl
  | case2 hwire hopen inside =>
    rw [if_pos hwire, if_neg (mt UInt32.le_iff_toNat_le.mpr hopen)]
    exact hinside (UInt32.not_le.mp hopen)
  | case3 hwire e rest' hs =>
    rw [if_neg hwire, hs]
    rfl
  | case4 hwire rest' hs =>
    rw [if_neg hwire, hs]
    rfl

/-- With the counter at the number of messages and groups that are open, skipping the records of the
innermost group does what it does with the open groups in a list. The induction is on the length of
the bytes, for all groups around at once. -/
theorem skipGroups_eq_skipRecords (hlimit : nesting.limit = limit.toNat)
    (hdepth : nesting.depth + (outer.length + 1) = depth.toNat) (number : Nat) (bs : List UInt8) :
    skipGroups nesting (number :: outer) bs =
      (skipRecords limit depth number bs).andThen (skipGroups nesting outer) := by
  induction hn : bs.length using Nat.strongRecOn generalizing depth number outer bs with
  | ind n ih =>
    have hvalue {inner : Nat} {wire : WireType} {rest : List UInt8} (hne : ¬bs.isEmpty)
        (ht : readTag bs = .ok (inner, wire) rest) (hend : wire ≠ .endGroup) :
        skipGroups nesting (number :: outer) bs =
          (skipValue limit depth inner wire rest).andThen (skipGroups nesting (number :: outer)) :=
      skipGroups_value hne ht hend hlimit hdepth fun hopen =>
        ih rest.length (hn ▸ advances_readTag.lt ht)
          (by rw [toNat_add_one_of_lt hopen, List.length_cons]; omega) inner rest rfl
    fun_cases skipRecords limit depth number bs with
    | case1 hempty =>
      rw [List.isEmpty_iff.mp hempty, skipGroups]
      rfl
    | case2 hne e rest ht =>
      rw [skipGroups_cons hne, ht]
      rfl
    | case3 hne rest ht =>
      rw [skipGroups_cons hne, ht]
      simp only [↓reduceIte]
      rfl
    | case4 hne inner rest hother ht =>
      rw [skipGroups_cons hne, ht]
      simp only [hother, ↓reduceIte]
      rfl
    | case5 hne inner wire rest ht _ hend value e hv =>
      rw [hvalue hne ht hend, Skipped.andThen, hv]
      rfl
    | case6 hne inner wire rest ht tagged hend value hv skipped more =>
      have hrestored : value.depth = depth := (restores_skipValue limit depth inner wire rest).depth
      have hmore := ih value.rest.length (hn ▸ Nat.lt_of_le_of_lt skipped tagged)
        (hrestored ▸ hdepth) number value.rest rfl
      rw [hvalue hne ht hend, Skipped.andThen, hv]
      exact hmore

/-- A counter that starts at the depth of the reader skips what the reader skips. -/
theorem skipField_eq_skipValue (limit depth : UInt32) (number : Nat) (wire : WireType)
    (bs : List UInt8) :
    skipField ⟨depth.toNat, limit.toNat⟩ number wire bs =
      (skipValue limit depth number wire bs).andThen (pure ()) := by
  rw [skipField]
  fun_cases skipValue limit depth number wire bs with
  | case1 hwire hclosed =>
    rw [if_pos hwire, if_pos (UInt32.le_iff_toNat_le.mp hclosed)]
    rfl
  | case2 hwire hopen inside =>
    have hadd := toNat_add_one_of_lt (UInt32.not_le.mp hopen)
    rw [if_pos hwire, if_neg (mt UInt32.le_iff_toNat_le.mpr hopen),
      skipGroups_eq_skipRecords rfl hadd.symm]
    have hnone : skipGroups ⟨depth.toNat, limit.toNat⟩ [] = pure () := by
      funext rest
      rw [skipGroups]
      rfl
    rw [hnone]
    rfl
  | case3 hwire e rest hs =>
    rw [if_neg hwire, hs]
    rfl
  | case4 hwire rest hs =>
    rw [if_neg hwire, hs]
    rfl

theorem Skipped.andThen_pure_eq_ok_iff {s : Skipped bs} {rest : List UInt8} :
    s.andThen (pure ()) = .ok () rest ↔ s.result = .ok () ∧ s.rest = rest := by
  rw [andThen]
  split <;> rename_i hresult
  · simp [hresult]
  · simp [hresult, pure, EStateM.pure]

theorem skipValue_eq_ok_iff {rest : List UInt8} :
    (skipValue limit depth number wire bs).result = .ok () ∧
        (skipValue limit depth number wire bs).rest = rest ↔
      ∃ form, ValueForm (limit.toNat - depth.toNat) number wire form ∧ bs = form ++ rest := by
  rw [← Skipped.andThen_pure_eq_ok_iff, ← skipField_eq_skipValue]
  exact reads_skipField _ _ _ _ _ _

end Wire

open Wire

/-- Skipping with a cursor recognises exactly the values of the wire type: it succeeds when the
bytes left to read start with one, in which at most as many groups are open at once as the cursor
has room for, and then stands behind this value. The tag that closes a group starts no value. The
counter is back where it was, in any case; and in between it never was above the limit or below
zero. -/
theorem skip_recognises_values (c : Cursor) (number : Nat) (wire : WireType) :
    ((c.skipField number wire).1 = .ok () ↔
      ∃ form rest, ValueForm (c.limit.toNat - c.depth.toNat) number wire form ∧
        c.window.unread = form ++ rest) ∧
    (∀ form rest, ValueForm (c.limit.toNat - c.depth.toNat) number wire form →
      c.window.unread = form ++ rest →
        (c.skipField number wire).2.window.bytes = c.window.bytes ∧
        (c.skipField number wire).2.window.pos = c.window.pos + form.length ∧
        (c.skipField number wire).2.window.stop = c.window.stop) ∧
    (c.skipField number .endGroup).1 = .error (.unexpectedEndGroup number) ∧
    (c.skipField number wire).2.depth = c.depth ∧
    (c.skipField number wire).2.limit = c.limit ∧
    ∀ i ∈ (c.skipped number wire).counts, 0 ≤ i ∧ i ≤ (c.limit.toNat : Int) := by
  obtain ⟨hdepth, hcounts⟩ := restores_skipValue c.limit c.depth number wire c.window.unread
  refine ⟨⟨fun hok => ?_, ?_⟩, fun form rest hform hunread => ⟨rfl, ?_, rfl⟩, ?_, hdepth, rfl,
    hcounts⟩
  · obtain ⟨form, hform, hunread⟩ := skipValue_eq_ok_iff.mp ⟨hok, rfl⟩
    exact ⟨form, _, hform, hunread⟩
  · rintro ⟨form, rest, hform, hunread⟩
    exact (skipValue_eq_ok_iff.mpr ⟨form, hform, hunread⟩).1
  · have hrest := (skipValue_eq_ok_iff.mpr ⟨form, hform, hunread⟩).2
    have hlength := congrArg List.length hunread
    have hstop := c.window.pos_le_stop
    rw [Window.length_unread, Window.size, List.length_append] at hlength
    show c.window.stop - (c.skipped number wire).rest.length = c.window.pos + form.length
    rw [Cursor.skipped, hrest]
    omega
  · show (skipValue c.limit c.depth number .endGroup c.window.unread).result = _
    fun_cases skipValue c.limit c.depth number .endGroup c.window.unread with
    | case1 hwire => cases hwire
    | case2 hwire => cases hwire
    | case3 _ e rest hs => cases hs; rfl
    | case4 _ rest hs => cases hs

/-- A group in a group, the tag that opens the outer one already read. -/
def nestedGroups : Cursor := ⟨Window.ofBytes [11, 12, 76, 8, 1], 0, 2⟩

/-- With room for two groups, all of the value is skipped. -/
theorem nestedGroups_skipped : ∃ form rest, ValueForm 2 9 .startGroup form ∧
    nestedGroups.window.unread = form ++ rest ∧
      (nestedGroups.skipField 9 .startGroup).2.window.pos = form.length := by
  have hread : skipField ⟨0, 2⟩ 9 .startGroup [11, 12, 76, 8, 1] = .ok () [8, 1] := by cbv
  have hskips : (skipValue 2 0 9 .startGroup [11, 12, 76, 8, 1]).andThen (pure ()) =
      .ok () [8, 1] := by
    rw [← skipField_eq_skipValue]
    exact hread
  have hok : (nestedGroups.skipField 9 .startGroup).1 = .ok () :=
    (Skipped.andThen_pure_eq_ok_iff.mp hskips).1
  obtain ⟨hvalue, hbehind, _⟩ := skip_recognises_values nestedGroups 9 .startGroup
  obtain ⟨form, rest, hform, hunread⟩ := hvalue.mp hok
  obtain ⟨_, hpos, _⟩ := hbehind form rest hform hunread
  exact ⟨form, rest, hform, hunread, hpos.trans (Nat.zero_add _)⟩

end Protowire
