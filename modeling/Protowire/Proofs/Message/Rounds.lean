import Protowire.Message.Rounds
import Protowire.Proofs.Buffer
import Protowire.Proofs.Message.Merge
import Protowire.Proofs.Wire.Cursor

/-!
Every loop of the decoder ends. Behind a success a cursor stands at least one byte further on
(`Cursor.Passes`), and a region that was split off lies behind such a byte (`Cursor.Delimits`). So
one round for each byte that is left is enough for a loop and for all that it calls, at every depth
and under every limit, and what it comes to does not depend on the rounds. From there on the
decoder's work is known, since it is what merging does record by record.
-/

namespace Protowire

open Reader Wire

variable {ε α : Type} {F : List UInt8 → α → Prop}

theorem Reader.Reads.length_pos {r : Reader ε α} (hr : Reads r F) (h : Advances r)
    {form : List UInt8} {a : α} (hform : F form a) : 0 < form.length := by
  have hlt := h.lt (hr.ok hform [])
  rwa [List.append_nil] at hlt

theorem Wire.ValueForm.length_pos {room number : Nat} {wire : WireType} {form : List UInt8}
    (h : ValueForm room number wire form) : 0 < form.length := by
  rw [ValueForm] at h
  split at h
  · obtain ⟨_, body, close, _, hclose, rfl⟩ := h
    have hpos := reads_readTag.length_pos advances_readTag hclose
    rw [List.length_append]
    omega
  · exact (reads_skipPlain number wire).length_pos (advances_skipPlain number wire) (a := ()) h

theorem Wire.readBytes_of_error {bs rest : List UInt8} {e : DecodeError}
    (h : readLength bs = .error e rest) : readBytes bs = .error e rest := by
  rw [readBytes]
  simp only [Bind.bind, EStateM.bind, h]

theorem Wire.readBytes_of_ok {bs rest : List UInt8} {n : Nat} (h : readLength bs = .ok n rest) :
    readBytes bs = .ok (rest.take n) (rest.drop n) := by
  have hle := (readLength_eq_ok_iff.mp h).1
  rw [readBytes]
  simp only [Bind.bind, EStateM.bind, h, mapError, Reader.take, if_pos hle]

theorem Window.exists_cut {w : Window} {n : Nat} (h : n ≤ w.size) :
    ∃ inner, w.cut n = (.ok inner, w.keepLast (w.size - n)) ∧ inner.bytes = w.bytes ∧
      inner.pos = w.pos ∧ inner.stop = w.pos + n ∧ inner.unread = w.unread.take n := by
  have hpos := w.pos_le_stop
  rw [Window.size] at h
  have hle : w.pos + n ≤ w.stop := by omega
  have hkeep : w.stop - (w.size - n) = w.pos + n := by
    rw [Window.size]
    omega
  rw [Window.cut, dif_pos hle]
  refine ⟨⟨w.bytes, w.pos, w.pos + n, Nat.le_add_right _ _, Nat.le_trans hle w.stop_le_length⟩,
    ?_, rfl, rfl, rfl, ?_⟩
  · simp only [Window.keepLast, hkeep]
  · rw [Window.unread, Window.unread, List.take_take, Window.size, Window.size,
      Nat.add_sub_cancel_left, Nat.min_eq_left h]

/-! ### Cursors that move on -/

namespace Cursor

variable {c c' inner : Cursor} {r : Reader DecodeError α} {a : α} {e : DecodeError}
  {form rest body : List UInt8}

def nesting (c : Cursor) : Nesting := ⟨c.depth.toNat, c.limit.toNat⟩

/-- The cursor with all but the last `n` bytes used up. -/
def keepLast (c : Cursor) (n : Nat) : Cursor := { c with window := c.window.keepLast n }

/-- The second cursor is the first one, further on. -/
structure Passes (c c' : Cursor) : Prop where
  bytes : c'.window.bytes = c.window.bytes
  stop : c'.window.stop = c.window.stop
  pos_lt : c.window.pos < c'.window.pos
  pos_le_stop : c'.window.pos ≤ c'.window.stop
  depth : c'.depth = c.depth
  limit : c'.limit = c.limit

/-- On the way to the cursor `c'` a region was split off, which does not take up all of it. -/
structure Delimits (c inner c' : Cursor) : Prop where
  passes : c.Passes c'
  bytes : inner.window.bytes = c.window.bytes
  pos_lt : c.window.pos < inner.window.pos
  pos_le_stop : inner.window.pos ≤ inner.window.stop
  stop : inner.window.stop = c'.window.pos
  limit : inner.limit = c.limit

theorem Delimits.size_lt (h : c.Delimits inner c') : inner.window.size < c.window.size := by
  have hstart := h.pos_lt
  have hend := h.stop
  have hpasses := h.passes.pos_le_stop
  have hstop := h.passes.stop
  have hinner := h.pos_le_stop
  simp only [Window.size]
  omega

/-- A loop on the region has rounds enough where one on the whole has. -/
theorem Delimits.size_le {rounds : Nat} (h : c.Delimits inner c') (hsize : c.window.size ≤ rounds) :
    inner.window.size ≤ rounds :=
  Nat.le_of_lt (Nat.lt_of_lt_of_le h.size_lt hsize)

theorem unread_eq_nil (h : c.window.size ≤ 0) : c.window.unread = [] := by
  rw [← List.length_eq_zero_iff, Window.length_unread]
  exact Nat.le_zero.mp h

theorem isEmpty_eq (c : Cursor) : c.isEmpty = c.window.unread.isEmpty := by
  rw [isEmpty, ← Window.length_unread]
  cases c.window.unread <;> rfl

theorem run_of_ok (h : r c.window.unread = .ok a rest) :
    c.run r = (.ok a, c.keepLast rest.length) := by
  rw [run, Window.run, value?, left, h]
  rfl

theorem run_of_error (h : r c.window.unread = .error e rest) :
    c.run r = (.error e, c.keepLast rest.length) := by
  rw [run, Window.run, value?, left, h]
  rfl

@[simp] theorem keepLast_length_unread (c : Cursor) : c.keepLast c.window.unread.length = c := by
  rw [keepLast, Window.length_unread, Window.keepLast_size]

theorem length_eq_of_append (h : c.window.unread = form ++ rest) :
    form.length ≤ c.window.size ∧ rest.length = c.window.size - form.length := by
  have hlength := congrArg List.length h
  rw [Window.length_unread, List.length_append] at hlength
  omega

theorem unread_keepLast (h : c.window.unread = form ++ rest) :
    (c.keepLast rest.length).window.unread = rest := by
  obtain ⟨hle, hlength⟩ := length_eq_of_append h
  rw [keepLast, hlength, Window.unread_keepLast hle, h, List.drop_left]

theorem size_keepLast (h : c.window.unread = form ++ rest) :
    (c.keepLast rest.length).window.size = rest.length := by
  rw [← Window.length_unread, unread_keepLast h]

/-- A round that uses up a byte leaves rounds enough for the bytes behind it. -/
theorem size_keepLast_le {rounds : Nat} (h : c.window.unread = form ++ rest)
    (hlt : rest.length < c.window.unread.length) (hsize : c.window.size ≤ rounds + 1) :
    (c.keepLast rest.length).window.size ≤ rounds := by
  rw [Window.length_unread] at hlt
  rw [size_keepLast h]
  omega

theorem passes_keepLast (h : c.window.unread = form ++ rest) (hform : 0 < form.length) :
    c.Passes (c.keepLast rest.length) := by
  obtain ⟨hle, hlength⟩ := length_eq_of_append h
  refine ⟨rfl, rfl, ?_, Window.pos_le_stop _, rfl, rfl⟩
  rw [keepLast, hlength, Window.pos_keepLast hle]
  omega

/-- A reader of forms that are not empty passes what it reads. -/
theorem passes_run (hreads : Reads r F) (hpos : ∀ {form a}, F form a → 0 < form.length)
    (hrun : c.run r = (.ok a, c')) : c.Passes c' := by
  cases hr : r c.window.unread with
  | error e rest =>
    rw [run_of_error hr] at hrun
    cases hrun
  | ok b rest =>
    rw [run_of_ok hr] at hrun
    cases hrun
    obtain ⟨form, hform, happend⟩ := hreads.form hr
    exact passes_keepLast happend (hpos hform)

/-! ### Tags and regions -/

theorem nextField_of_empty (h : c.window.unread = []) : c.nextField = (.ok none, c) := by
  have hr : nextTag c.window.unread = .ok none c.window.unread := by
    rw [h]
    rfl
  rw [nextField, run_of_ok hr, keepLast_length_unread]

theorem nextTag_eq {bs : List UInt8} (h : bs ≠ []) : nextTag bs = (some <$> readTag) bs := by
  cases bs with
  | nil => contradiction
  | cons b bs => rfl

theorem nextField_of_ok {t : Nat × WireType} (h : readTag c.window.unread = .ok t rest) :
    c.nextField = (.ok (some t), c.keepLast rest.length) := by
  have hne : c.window.unread ≠ [] := by
    intro hempty
    have hlt := advances_readTag.lt h
    rw [hempty] at hlt
    exact absurd hlt (Nat.not_lt_zero _)
  exact run_of_ok (by rw [nextTag_eq hne]; simp only [Functor.map, EStateM.map, h])

theorem nextField_of_error (hne : c.window.unread ≠ [])
    (h : readTag c.window.unread = .error e rest) :
    c.nextField = (.error e, c.keepLast rest.length) :=
  run_of_error (by rw [nextTag_eq hne]; simp only [Functor.map, EStateM.map, h])

theorem passes_nextField {t : Nat × WireType} (h : c.nextField = (.ok (some t), c')) :
    c.Passes c' := by
  by_cases hempty : c.window.unread = []
  · rw [nextField_of_empty hempty] at h
    cases h
  · cases ht : readTag c.window.unread with
    | error e rest =>
      rw [nextField_of_error hempty ht] at h
      cases h
    | ok u rest =>
      rw [nextField_of_ok ht] at h
      cases h
      obtain ⟨form, hform, happend⟩ := reads_readTag.form ht
      exact passes_keepLast happend (reads_readTag.length_pos advances_readTag hform)

/-- A region is split off just when its bytes can be read, and it holds these bytes. -/
theorem readPacked_cases (c : Cursor) :
    (∃ e rest, readBytes c.window.unread = .error e rest ∧
      c.readPacked = (.error e, c.keepLast rest.length)) ∨
    ∃ body rest inner, readBytes c.window.unread = .ok body rest ∧
      c.readPacked = (.ok inner, c.keepLast rest.length) ∧
      c.Delimits inner (c.keepLast rest.length) ∧
      inner.window.unread = body ∧ inner.depth = c.depth := by
  cases hr : readLength c.window.unread with
  | error e rest =>
    refine .inl ⟨e, rest, readBytes_of_error hr, ?_⟩
    rw [readPacked, run_of_error hr]
  | ok n rest =>
    obtain ⟨hle, form, hform, happend⟩ := readLength_eq_ok_iff.mp hr
    have hsize := size_keepLast happend
    have hpasses := passes_keepLast happend hform.length_pos
    obtain ⟨inner, hcut, hbytes, hpos, hstop, hunread⟩ :=
      Window.exists_cut (w := (c.keepLast rest.length).window) (n := n) (by rwa [hsize])
    rw [hsize, ← List.length_drop] at hcut
    refine .inr ⟨_, _, { c with window := inner }, readBytes_of_ok hr, ?_, ?_, ?_, rfl⟩
    · rw [readPacked, run_of_ok hr]
      simp only [hcut]
      rfl
    · have hbehind : (c.keepLast (rest.drop n).length).window.pos =
          (c.keepLast rest.length).window.pos + n := by
        have hkeep := Window.pos_keepLast (w := (c.keepLast rest.length).window) (j := n)
          (by rwa [hsize])
        rw [hsize, ← List.length_drop] at hkeep
        exact hkeep
      have hlt := hpasses.pos_lt
      exact ⟨⟨rfl, rfl, by omega, Window.pos_le_stop _, rfl, rfl⟩, hbytes, hpos ▸ hlt,
        inner.pos_le_stop, hstop.trans hbehind.symm, rfl⟩
    · rw [hunread, unread_keepLast happend]

/-- The same of the body of a nested message, and of what may be opened inside it. -/
theorem readNested_cases (c : Cursor) :
    (∃ e rest, Wire.readNested c.nesting c.window.unread = .error e rest ∧
      c.readNested = (.error e, c.keepLast rest.length)) ∨
    ∃ body rest inner,
      Wire.readNested c.nesting c.window.unread = .ok (body, c.nesting.deeper) rest ∧
      c.readNested = (.ok inner, c.keepLast rest.length) ∧
      c.Delimits inner (c.keepLast rest.length) ∧
      inner.window.unread = body ∧ inner.nesting = c.nesting.deeper := by
  by_cases hclosed : c.limit ≤ c.depth
  · have hlimit : c.nesting.limit ≤ c.nesting.depth := UInt32.le_iff_toNat_le.mp hclosed
    refine .inl ⟨.recursionLimitExceeded c.limit.toNat, c.window.unread, ?_, ?_⟩
    · rw [Wire.readNested, if_pos hlimit]
      rfl
    · rw [readNested, if_pos hclosed, keepLast_length_unread]
  · have hopen : ¬c.nesting.limit ≤ c.nesting.depth := mt UInt32.le_iff_toNat_le.mpr hclosed
    have hdepth := toNat_add_one_of_lt (UInt32.not_le.mp hclosed)
    obtain ⟨e, rest, hr, hpacked⟩ | ⟨body, rest, inner, hr, hpacked, hdelimits, hunread, hinner⟩ :=
      readPacked_cases c
    · refine .inl ⟨e, rest, ?_, ?_⟩
      · rw [Wire.readNested, if_neg hopen]
        simp only [Functor.map, EStateM.map, hr]
      · rw [readNested, if_neg hclosed, hpacked]
    · refine .inr ⟨body, rest, { inner with depth := inner.depth + 1 }, ?_, ?_, ?_, hunread, ?_⟩
      · rw [Wire.readNested, if_neg hopen]
        simp only [Functor.map, EStateM.map, hr]
      · rw [readNested, if_neg hclosed, hpacked]
      · exact ⟨hdelimits.passes, hdelimits.bytes, hdelimits.pos_lt, hdelimits.pos_le_stop,
          hdelimits.stop, hdelimits.limit⟩
      · rw [nesting, hinner, hdepth, hdelimits.limit]
        rfl

end Cursor

/-! ### Skipping -/

/-- What skipping comes to for a cursor that has these bytes left. -/
def Wire.Skipped.on {bs : List UInt8} (s : Skipped bs) (c : Cursor) :
    Except DecodeError Unit × Cursor :=
  (s.result, ⟨c.window.keepLast s.rest.length, s.depth, c.limit⟩)

/-- What merging comes to for a cursor that has these bytes left. -/
def Merged.on (r : Merged) (c : Cursor) : Rounds.Outcome :=
  ⟨r.message, c.keepLast r.rest.length, r.error?⟩

/-- Skipping with a cursor is skipping with the reader that knows how deep the cursor is. -/
theorem Cursor.skipField_eq_run (c : Cursor) (number : Nat) (wire : WireType) :
    c.skipField number wire = c.run (Wire.skipField c.nesting number wire) := by
  have hdepth := (restores_skipValue c.limit c.depth number wire c.window.unread).depth
  have hreader : Wire.skipField c.nesting number wire c.window.unread =
      (skipValue c.limit c.depth number wire c.window.unread).andThen (pure ()) :=
    skipField_eq_skipValue c.limit c.depth number wire c.window.unread
  rw [Skipped.andThen] at hreader
  rw [skipField, skipped, hdepth]
  split at hreader
  · rename_i e hresult
    rw [run_of_error hreader, hresult]
    rfl
  · rename_i hresult
    rw [run_of_ok hreader, hresult]
    rfl

namespace Rounds

variable {S : Schema} {c : Cursor} {rounds number : Nat} {wire : WireType}

/-- A value needs no more rounds than the records of the group that it may be. -/
theorem skipField_of_skipRecords
    (h : ∀ c : Cursor, c.window.size ≤ rounds → skipRecords rounds number c =
      some ((Wire.skipRecords c.limit c.depth number c.window.unread).on c))
    (hsize : c.window.size ≤ rounds) :
    skipField rounds number wire c = some (c.skipField number wire) := by
  show _ = some ((skipValue c.limit c.depth number wire c.window.unread).on c)
  rw [skipField]
  fun_cases skipValue c.limit c.depth number wire c.window.unread with
  | case1 hwire hclosed =>
    rw [if_pos hwire, skipGroup, if_pos hclosed, Skipped.on, Window.length_unread,
      Window.keepLast_size]
  | case2 hwire hopen inside =>
    rw [if_pos hwire, skipGroup, if_neg hopen, h { c with depth := c.depth + 1 } hsize]
    rfl
  | case3 hwire e rest hs =>
    rw [if_neg hwire, Cursor.run_of_error hs]
    rfl
  | case4 hwire rest hs =>
    rw [if_neg hwire, Cursor.run_of_ok hs]
    rfl

/-- The induction is on the rounds. A record uses up the byte that pays for its round. -/
theorem skipRecords_eq (hsize : c.window.size ≤ rounds) : skipRecords rounds number c =
    some ((Wire.skipRecords c.limit c.depth number c.window.unread).on c) := by
  induction rounds generalizing number c with
  | zero =>
    have hempty : c.window.unread.isEmpty := List.isEmpty_iff.mpr (Cursor.unread_eq_nil hsize)
    rw [skipRecords, Cursor.isEmpty_eq, if_pos hempty, Wire.skipRecords, if_pos hempty,
      Skipped.on, Window.length_unread, Window.keepLast_size]
  | succ rounds ih =>
    have hvalue {inner : Nat} {wire : WireType} {rest : List UInt8}
        (ht : readTag c.window.unread = .ok (inner, wire) rest) :
        skipField rounds inner wire (c.keepLast rest.length) =
          some ((skipValue c.limit c.depth inner wire rest).on c) := by
      obtain ⟨tag, -, happend⟩ := reads_readTag.form ht
      have hbehind := Cursor.size_keepLast_le happend (advances_readTag.lt ht) hsize
      rw [skipField_of_skipRecords (fun c => ih) hbehind, Cursor.skipField, Cursor.skipped,
        Cursor.unread_keepLast happend]
      rfl
    rw [skipRecords, Cursor.isEmpty_eq]
    fun_cases Wire.skipRecords c.limit c.depth number c.window.unread with
    | case1 hempty =>
      rw [if_pos hempty, Skipped.on, Window.length_unread, Window.keepLast_size]
    | case2 hne e rest ht =>
      rw [if_neg hne, Cursor.run_of_error ht]
      rfl
    | case3 hne rest ht =>
      rw [if_neg hne, Cursor.run_of_ok ht]
      simp only [↓reduceIte]
      rfl
    | case4 hne inner rest hother ht =>
      rw [if_neg hne, Cursor.run_of_ok ht]
      simp only [↓reduceIte, hother]
      rfl
    | case5 hne inner wire rest ht tagged hend value e hv =>
      have hresult : (skipValue c.limit c.depth inner wire rest).result = .error e := hv
      rw [if_neg hne, Cursor.run_of_ok ht]
      simp only [↓reduceIte, hend, hvalue ht, Skipped.on, Option.bind_eq_bind, Option.bind_some,
        hresult]
      rfl
    | case6 hne inner wire rest ht tagged hend value hv skipped more =>
      have hresult : (skipValue c.limit c.depth inner wire rest).result = .ok () := hv
      obtain ⟨tag, -, htag⟩ := reads_readTag.form ht
      obtain ⟨form, -, hform⟩ := skipValue_eq_ok_iff.mp ⟨hv, rfl⟩
      have happend : c.window.unread = (tag ++ form) ++ value.rest := by
        rw [htag, List.append_assoc]
        exact congrArg (tag ++ ·) hform
      let behind : Cursor := ⟨c.window.keepLast value.rest.length, value.depth, c.limit⟩
      have hunread : behind.window.unread = value.rest := Cursor.unread_keepLast happend
      have hsize' : behind.window.size ≤ rounds := by
        rw [← Window.length_unread, hunread]
        rw [Window.length_unread] at tagged
        omega
      have hmore := @ih behind number hsize'
      rw [hunread] at hmore
      rw [if_neg hne, Cursor.run_of_ok ht]
      simp only [↓reduceIte, hend, hvalue ht, Skipped.on, Option.bind_eq_bind, Option.bind_some,
        hresult]
      exact hmore

theorem skipField_eq (hsize : c.window.size ≤ rounds) :
    skipField rounds number wire c = some (c.skipField number wire) :=
  skipField_of_skipRecords (fun _ => skipRecords_eq) hsize

/-! ### Merging -/

/-- What a record comes to that was read, or could not be. -/
def Outcome.ofRecord (S : Schema) (m : Message) (c : Cursor) :
    EStateM.Result DecodeError (List UInt8) Record → Outcome
  | .error e rest => ⟨m, c.keepLast rest.length, some e⟩
  | .ok r rest => ⟨(m.after S c.nesting r).1, c.keepLast rest.length, (m.after S c.nesting r).2⟩

variable {m : Message} {f : Field}

/-- The induction is on the rounds. No scalar is read from nothing, so a value pays for its
round. -/
theorem decodeItems_eq (s : Scalar) (hsize : c.window.size ≤ rounds) :
    ∃ c', decodeItems S rounds (.scalar s) c = some (s.readAll c.window.unread, c') := by
  induction rounds generalizing c with
  | zero =>
    have hempty : c.window.unread.isEmpty := List.isEmpty_iff.mpr (Cursor.unread_eq_nil hsize)
    exact ⟨c, by rw [decodeItems, Cursor.isEmpty_eq, if_pos hempty, Scalar.readAll, if_pos hempty]⟩
  | succ rounds ih =>
    rw [decodeItems, Cursor.isEmpty_eq]
    fun_cases Scalar.readAll s c.window.unread with
    | case1 hempty => exact ⟨c, by rw [if_pos hempty]⟩
    | case2 hne e rest hr =>
      refine ⟨c.keepLast rest.length, ?_⟩
      rw [if_neg hne, decodeValue, Cursor.run_of_error hr]
      rfl
    | case3 hne v rest hr =>
      obtain ⟨form, -, happend⟩ := (Scalar.reads_read s).form hr
      obtain ⟨c', hmore⟩ := ih (Cursor.size_keepLast_le happend (s.advances_read.lt hr) hsize)
      refine ⟨c', ?_⟩
      rw [if_neg hne, decodeValue, Cursor.run_of_ok hr]
      simp only [Option.bind_eq_bind, Option.bind_some, hmore, Cursor.unread_keepLast happend]
      rfl

theorem mergeField_of_scalar {s : Scalar} (hkind : f.kind = .scalar s)
    (hsize : c.window.size ≤ rounds) :
    mergeField S rounds m f wire c = some (.ofRecord S m c
      (Record.readField (S.type m.type) c.nesting f wire c.window.unread)) := by
  have hpackable : f.kind.packable = s.packable := by rw [hkind]; rfl
  have hexpected : f.kind.wire = s.wire := by rw [hkind]; rfl
  rw [mergeField, Record.readField, hpackable, hexpected, hkind]
  by_cases hpacked : (f.repeated && s.packable && decide (wire = .lengthDelimited)) = true
  · simp only [if_pos hpacked]
    obtain ⟨e, rest, hr, hregion⟩ | ⟨body, rest, inner, hr, hregion, hdelimits, hunread, -⟩ :=
      c.readPacked_cases
    · rw [hregion, hr]
      rfl
    · obtain ⟨c', hitems⟩ := decodeItems_eq (S := S) (c := inner) s
        (hdelimits.size_le hsize)
      rw [hregion, hr]
      simp only [hitems, hunread]
      cases hall : s.readAll body <;> rfl
  · simp only [if_neg hpacked]
    by_cases hwire : wire = s.wire
    · simp only [if_neg (not_not.mpr hwire), if_pos hwire]
      cases hr : s.read c.window.unread with
      | error e rest =>
        simp only [decodeValue, Cursor.run_of_error hr, Functor.map, EStateM.map, hr]
        rfl
      | ok v rest =>
        simp only [decodeValue, Cursor.run_of_ok hr, Functor.map, EStateM.map, hr]
        rfl
    · simp only [if_pos hwire, if_neg hwire, Outcome.ofRecord, Cursor.keepLast_length_unread]
      rfl

theorem mergeMessage_of_empty (hempty : c.window.unread = []) :
    mergeMessage S rounds m c = some ((merge S c.nesting m c.window.unread).on c) := by
  have hnone : c.keepLast 0 = c := by
    have hkeep := c.keepLast_length_unread
    rwa [hempty] at hkeep
  rw [mergeMessage, Cursor.nextField_of_empty hempty, hempty, merge_nil, Merged.on,
    List.length_nil, hnone]

/-- Behind a tag, a field that is not declared is skipped as its record is. -/
theorem skipField_behind {rest : List UInt8}
    (ht : readTag c.window.unread = .ok (number, wire) rest) (hend : wire ≠ .endGroup)
    (hf : (S.type m.type).field? number = none) (hsize : rest.length ≤ rounds) :
    (skipField rounds number wire (c.keepLast rest.length)).map (fun
      | (.error e, c) => ⟨m, c, some e⟩
      | (.ok (), c) => ⟨m, c, none⟩) =
      some (Outcome.ofRecord S m c (Record.read (S.type m.type) c.nesting c.window.unread)) := by
  obtain ⟨tag, htag, happend⟩ := reads_readTag.form ht
  rw [skipField_eq (by rwa [Cursor.size_keepLast happend]), Cursor.skipField_eq_run, happend,
    Record.read_undeclared hf hend htag]
  cases hs : Wire.skipField c.nesting number wire rest with
  | error e rest' =>
    rw [Cursor.run_of_error (by rw [Cursor.unread_keepLast happend]; exact hs)]
    simp only [Functor.map, EStateM.map, hs]
    rfl
  | ok u rest' =>
    rw [Cursor.run_of_ok (by rw [Cursor.unread_keepLast happend]; exact hs)]
    simp only [Functor.map, EStateM.map, hs]
    rfl

section

variable (hmerge : ∀ (m : Message) (c : Cursor), c.window.size ≤ rounds →
  mergeMessage S rounds m c = some ((merge S c.nesting m c.window.unread).on c))

include hmerge

/-- A body is shorter than what its cursor has left, so the rounds are enough for it. -/
theorem mergeMessage_of_delimits {inner c' : Cursor} (h : c.Delimits inner c')
    (hnesting : inner.nesting = c.nesting.deeper) (hsize : c.window.size ≤ rounds) (m : Message) :
    mergeMessage S rounds m inner =
      some ((merge S c.nesting.deeper m inner.window.unread).on inner) := by
  rw [hmerge m inner (h.size_le hsize), hnesting]

theorem mergeField_of_message {t : TypeId} (hkind : f.kind = .message t)
    (hsize : c.window.size ≤ rounds) :
    mergeField S rounds m f wire c = some (.ofRecord S m c
      (Record.readField (S.type m.type) c.nesting f wire c.window.unread)) := by
  have hpackable : f.kind.packable = false := by rw [hkind]; rfl
  have hexpected : f.kind.wire = .lengthDelimited := by rw [hkind]; rfl
  rw [mergeField, Record.readField, hpackable, hexpected, hkind]
  simp only [Bool.and_false, Bool.false_and, Bool.false_eq_true, ↓reduceIte]
  by_cases hwire : wire = .lengthDelimited
  · simp only [if_neg (not_not.mpr hwire), if_pos hwire]
    obtain ⟨e, rest, hr, hbody⟩ | ⟨body, rest, inner, hr, hbody, hdelimits, hunread, hnesting⟩ :=
      c.readNested_cases
    · cases htarget : m.target? f with
      | none =>
        simp only [decodeValue, hbody, Functor.map, EStateM.map, hr]
        rfl
      | some x =>
        simp only [hbody, Functor.map, EStateM.map, hr]
        rfl
    · have hinside := mergeMessage_of_delimits hmerge hdelimits hnesting hsize
      rw [hunread] at hinside
      cases htarget : m.target? f with
      | none =>
        simp only [decodeValue, hbody, hinside, Functor.map, EStateM.map, hr, Outcome.ofRecord,
          Message.after, Message.keepTarget, Message.takeMessage, htarget, Option.bind_eq_bind,
          Option.bind_some, Option.getD_none, Merged.on]
        cases (merge S c.nesting.deeper (Message.empty t) body).error? <;> rfl
      | some x =>
        simp only [hbody, hinside, Functor.map, EStateM.map, hr, Outcome.ofRecord, Message.after,
          Message.keepTarget, Message.takeMessage, htarget, Option.bind_eq_bind, Option.bind_some,
          Option.getD_some, Merged.on]
        cases (merge S c.nesting.deeper x body).error? <;> rfl
  · simp only [if_pos hwire, if_neg hwire, Outcome.ofRecord, Cursor.keepLast_length_unread]
    rfl

theorem mergeField_eq (hsize : c.window.size ≤ rounds) :
    mergeField S rounds m f wire c = some (.ofRecord S m c
      (Record.readField (S.type m.type) c.nesting f wire c.window.unread)) := by
  cases hkind : f.kind with
  | scalar s => exact mergeField_of_scalar hkind hsize
  | message t => exact mergeField_of_message hmerge hkind hsize

/-- Behind a tag, a field that is declared is merged as its record is. -/
theorem mergeField_behind {rest : List UInt8}
    (ht : readTag c.window.unread = .ok (number, wire) rest) (hend : wire ≠ .endGroup)
    (hf : (S.type m.type).field? number = some f) (hsize : rest.length ≤ rounds) :
    mergeField S rounds m f wire (c.keepLast rest.length) =
      some (.ofRecord S m c (Record.read (S.type m.type) c.nesting c.window.unread)) := by
  obtain ⟨tag, htag, happend⟩ := reads_readTag.form ht
  rw [mergeField_eq hmerge (by rwa [Cursor.size_keepLast happend]), Cursor.unread_keepLast happend,
    happend, Record.read_declared hf hend htag]
  rfl

/-- Behind a record, merging goes on with what the record has left, where it left anything. -/
theorem mergeMessage_behind (hempty : c.window.unread ≠ [])
    (hsize : c.window.size ≤ rounds + 1) :
    (some (Outcome.ofRecord S m c (Record.read (S.type m.type) c.nesting c.window.unread)) >>=
      fun after =>
        match after.error? with
        | some _ => pure after
        | none => mergeMessage S rounds after.message after.cursor) =
      some ((merge S c.nesting m c.window.unread).on c) := by
  cases hr : Record.read (S.type m.type) c.nesting c.window.unread with
  | error e rest =>
    rw [merge_error hempty hr]
    rfl
  | ok r rest =>
    obtain ⟨form, -, happend⟩ := (Record.reads_read _ _).form hr
    have hlt : rest.length < c.window.unread.length := by
      have := Record.read_ok hr
      omega
    have hmore (m' : Message) := hmerge m' (c.keepLast rest.length)
      (Cursor.size_keepLast_le happend hlt hsize)
    rw [Cursor.unread_keepLast happend] at hmore
    rw [merge_record hr]
    rcases hafter : m.after S c.nesting r with ⟨m', e?⟩
    cases e? with
    | some e =>
      simp only [Outcome.ofRecord, hafter]
      rfl
    | none =>
      simp only [Outcome.ofRecord, hafter, Option.bind_eq_bind, Option.bind_some]
      exact hmore m'

end

/-- The induction is on the rounds. A tag uses up the byte that pays for its round. -/
theorem mergeMessage_eq (hsize : c.window.size ≤ rounds) :
    mergeMessage S rounds m c = some ((merge S c.nesting m c.window.unread).on c) := by
  induction rounds generalizing m c with
  | zero => exact mergeMessage_of_empty (Cursor.unread_eq_nil hsize)
  | succ rounds ih =>
    by_cases hempty : c.window.unread = []
    · exact mergeMessage_of_empty hempty
    cases ht : readTag c.window.unread with
    | error e rest =>
      have hr : Record.read (S.type m.type) c.nesting c.window.unread = .error e rest := by
        rw [Record.read, ht]
      rw [mergeMessage, Cursor.nextField_of_error hempty ht, merge_error hempty hr]
      rfl
    | ok t rest =>
      obtain ⟨number, wire⟩ := t
      have hlt := advances_readTag.lt ht
      rw [Window.length_unread] at hlt
      rw [mergeMessage, Cursor.nextField_of_ok ht]
      by_cases hend : wire = .endGroup
      · have hr : Record.read (S.type m.type) c.nesting c.window.unread =
            .error (.unexpectedEndGroup number) rest := by
          simp only [Record.read, ht, hend, ↓reduceIte]
        simp only [if_pos hend]
        rw [merge_error hempty hr]
        rfl
      · have hrest : rest.length ≤ rounds := by omega
        have hbehind := mergeMessage_behind (m := m) (fun _ _ => ih) hempty hsize
        simp only [if_neg hend]
        cases hf : (S.type m.type).field? number with
        | none => exact (congrArg (· >>= _) (skipField_behind ht hend hf hrest)).trans hbehind
        | some f =>
          have hmerged := mergeField_behind (fun _ _ => ih) ht hend hf hrest
          exact (congrArg (· >>= _) hmerged).trans hbehind

/-! ### Single values -/

theorem exists_decodeValue (hsize : c.window.size ≤ rounds) (kind : Kind) :
    ∃ outcome, decodeValue S rounds kind c = some outcome := by
  cases kind with
  | scalar s => exact ⟨_, by rw [decodeValue]⟩
  | message t =>
    rw [decodeValue]
    obtain ⟨e, rest, -, hbody⟩ | ⟨body, rest, inner, -, hbody, hdelimits, -⟩ := c.readNested_cases
    · rw [hbody]
      exact ⟨_, rfl⟩
    · have hinside := mergeMessage_eq (S := S) (m := Message.empty t)
        (hdelimits.size_le hsize)
      simp only [hbody, hinside, Option.bind_eq_bind, Option.bind_some]
      split <;> exact ⟨_, rfl⟩

theorem passes_decodeValue {kind : Kind} {v : Value} {c' : Cursor}
    (h : decodeValue S rounds kind c = some (.ok v, c')) : c.Passes c' := by
  cases kind with
  | scalar s =>
    rw [decodeValue] at h
    exact Cursor.passes_run (Scalar.reads_read s) Scalar.Form.length_pos (Option.some.inj h)
  | message t =>
    rw [decodeValue] at h
    obtain ⟨e, rest, -, hbody⟩ | ⟨body, rest, inner, -, hbody, hdelimits, -⟩ := c.readNested_cases
    · rw [hbody] at h
      cases h
    · rw [hbody] at h
      simp only [Option.bind_eq_bind, Option.bind_eq_some_iff] at h
      obtain ⟨inside, -, h⟩ := h
      split at h
      · cases h
      · cases h
        exact hdelimits.passes

end Rounds

namespace Cursor

variable {c c' inner : Cursor}

theorem passes_skipField {number : Nat} {wire : WireType}
    (h : c.skipField number wire = (.ok (), c')) : c.Passes c' := by
  rw [skipField_eq_run] at h
  exact passes_run (reads_skipField _ _ _) ValueForm.length_pos h

theorem delimits_readPacked (h : c.readPacked = (.ok inner, c')) :
    c.Delimits inner c' ∧ inner.nesting = c.nesting := by
  obtain ⟨e, rest, -, hregion⟩ | ⟨body, rest, region, -, hregion, hdelimits, -, hdepth⟩ :=
    c.readPacked_cases
  · rw [hregion] at h
    cases h
  · rw [hregion] at h
    cases h
    exact ⟨hdelimits, by rw [nesting, hdepth, hdelimits.limit]; rfl⟩

theorem delimits_readNested (h : c.readNested = (.ok inner, c')) :
    c.Delimits inner c' ∧ inner.nesting = c.nesting.deeper := by
  obtain ⟨e, rest, -, hbody⟩ | ⟨body, rest, region, -, hbody, hdelimits, -, hnesting⟩ :=
    c.readNested_cases
  · rw [hbody] at h
    cases h
  · rw [hbody] at h
    cases h
    exact ⟨hdelimits, hnesting⟩

end Cursor

/-- The decoder always moves on. A tag, a value, a field that is skipped and a region each take up
at least one byte and never more than there are, and a region lies behind the first of the bytes it
takes up. Hence one round for each byte left is enough for every loop together with all that it
calls: skipping the records of a group, decoding the items of a packed region and merging the fields
of a message. They come to the same with any more rounds, whatever the schema, the message, the
bytes, the depth and the limit, and this is what the decoder gives that reads record by record. -/
theorem decoding_moves_on (S : Schema) (c : Cursor) :
    (∀ t c', c.nextField = (.ok (some t), c') → c.Passes c') ∧
    (∀ rounds kind v c', Rounds.decodeValue S rounds kind c = some (.ok v, c') → c.Passes c') ∧
    (∀ number wire c', c.skipField number wire = (.ok (), c') → c.Passes c') ∧
    (∀ inner c', c.readPacked = (.ok inner, c') →
      c.Delimits inner c' ∧ inner.nesting = c.nesting) ∧
    (∀ inner c', c.readNested = (.ok inner, c') →
      c.Delimits inner c' ∧ inner.nesting = c.nesting.deeper) ∧
    ∀ rounds, c.window.size ≤ rounds →
      (∀ number, Rounds.skipRecords rounds number c =
        some ((Wire.skipRecords c.limit c.depth number c.window.unread).on c)) ∧
      (∀ number wire, Rounds.skipField rounds number wire c = some (c.skipField number wire)) ∧
      (∀ s, ∃ c', Rounds.decodeItems S rounds (.scalar s) c =
        some (s.readAll c.window.unread, c')) ∧
      (∀ kind, ∃ outcome, Rounds.decodeValue S rounds kind c = some outcome) ∧
      (∀ m f wire, Rounds.mergeField S rounds m f wire c =
        some (Rounds.Outcome.ofRecord S m c
          (Record.readField (S.type m.type) c.nesting f wire c.window.unread))) ∧
      ∀ m, Rounds.mergeMessage S rounds m c = some ((merge S c.nesting m c.window.unread).on c) :=
  ⟨fun _ _ => Cursor.passes_nextField, fun _ _ _ _ => Rounds.passes_decodeValue,
    fun _ _ _ => Cursor.passes_skipField, fun _ _ => Cursor.delimits_readPacked,
    fun _ _ => Cursor.delimits_readNested, fun _ hsize =>
      ⟨fun _ => Rounds.skipRecords_eq hsize, fun _ _ => Rounds.skipField_eq hsize,
        fun s => Rounds.decodeItems_eq s hsize, Rounds.exists_decodeValue hsize,
        fun _ _ _ => Rounds.mergeField_eq (fun _ _ => Rounds.mergeMessage_eq) hsize,
        fun _ => Rounds.mergeMessage_eq hsize⟩⟩

/-- A group in a message that declares none, under the highest limit there is. -/
def loneGroup : Cursor := ⟨Window.ofBytes [75, 76], 0, 0xffffffff⟩

theorem loneGroup_moves_on : loneGroup.Passes (loneGroup.keepLast 1) ∧
    ∃ o, Rounds.mergeMessage ⟨#[]⟩ 2 (Message.empty 0) loneGroup = some o ∧ o.error? = none := by
  obtain ⟨hnext, -, -, -, -, hrounds⟩ := decoding_moves_on ⟨#[]⟩ loneGroup
  obtain ⟨-, -, -, -, -, hmerge⟩ := hrounds 2 (by decide)
  have hgroup : Record.read (Schema.type ⟨#[]⟩ 0) loneGroup.nesting loneGroup.window.unread =
      .ok .unknown [] := by cbv
  have hmerged : merge ⟨#[]⟩ loneGroup.nesting (Message.empty 0) loneGroup.window.unread =
      ⟨Message.empty 0, [], none⟩ := by
    rw [merge_record hgroup]
    exact merge_nil
  refine ⟨hnext (9, .startGroup) _ rfl, _, hmerge (Message.empty 0), ?_⟩
  rw [hmerged]
  rfl

/-- With one round less, the group does not end. -/
example : Rounds.mergeMessage ⟨#[]⟩ 1 (Message.empty 0) loneGroup = none := by cbv

end Protowire
