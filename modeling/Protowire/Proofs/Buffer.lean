import Protowire.Buffer
import Protowire.Proofs.Wire.Varint

/-!
Reading by position is reading from the front of a window. As long as position and end are in order
no access is a fault, and each does to the buffer what its reader does to the window that the buffer
shows (`Access.Does`). What a reader does depends on the bytes in the window alone, so a buffer on a
part of some bytes cannot be told from one on a copy of this part, save that it stands further on.
-/

namespace Protowire

/-! ### Readers take from the front -/

namespace Reader

variable {ε α β : Type}

/-- What a reader leaves is an end of what it was given. -/
def TakesFront (r : Reader ε α) : Prop := ∀ bs, r.left bs <:+ bs

theorem takesFront_pure (a : α) : TakesFront (pure a : Reader ε α) := fun bs => List.suffix_refl bs

theorem takesFront_throw (e : ε) : TakesFront (throw e : Reader ε α) :=
  fun bs => List.suffix_refl bs

theorem TakesFront.bind {r : Reader ε α} (hr : TakesFront r) {f : α → Reader ε β}
    (hf : ∀ a, TakesFront (f a)) : TakesFront (r >>= f) := by
  intro bs
  have hrest := hr bs
  simp only [left, Bind.bind, EStateM.bind] at hrest ⊢
  cases h : r bs with
  | error e rest => simpa only [h] using hrest
  | ok a rest =>
    rw [h] at hrest
    exact (hf a rest).trans hrest

theorem TakesFront.map {r : Reader ε α} (hr : TakesFront r) (f : α → β) : TakesFront (f <$> r) := by
  intro bs
  have hrest := hr bs
  simp only [left, Functor.map, EStateM.map] at hrest ⊢
  cases h : r bs <;> simpa only [h] using hrest

theorem takesFront_byte : TakesFront byte := by
  intro bs
  cases bs with
  | nil => exact List.suffix_refl []
  | cons b bs => exact List.suffix_cons b bs

theorem takesFront_peek : TakesFront peek := by
  intro bs
  cases bs <;> exact List.suffix_refl _

theorem takesFront_take (n : Nat) : TakesFront (take n) := by
  intro bs
  rw [left, take]
  split_ifs
  · exact List.drop_suffix n bs
  · exact List.suffix_refl bs

/-- A failure takes nothing. -/
def Restores (r : Reader ε α) : Prop := ∀ bs e rest, r bs = .error e rest → rest = bs

theorem Restores.map {r : Reader ε α} (hr : Restores r) (f : α → β) : Restores (f <$> r) := by
  intro bs e rest heq
  simp only [Functor.map, EStateM.map] at heq
  split at heq
  · cases heq
  · rename_i h
    cases heq
    exact hr _ _ _ h

theorem restores_byte : Restores byte := by
  intro bs e rest h
  cases bs <;> cases h
  rfl

theorem restores_peek : Restores peek := by
  intro bs e rest h
  cases bs <;> cases h
  rfl

theorem restores_take (n : Nat) : Restores (take n) := by
  intro bs e rest h
  rw [take] at h
  split at h <;> cases h
  rfl

end Reader

namespace Window

open Reader

variable {ε α β : Type} {w : Window} {j : Nat}

@[simp] theorem keepLast_size (w : Window) : w.keepLast w.size = w := by
  have hpos : w.stop - w.size = w.pos := by
    have := w.pos_le_stop
    rw [size]
    omega
  cases w
  simp only [keepLast, Window.mk.injEq, and_true, true_and]
  exact hpos

theorem run_eq_of_ok {r : Reader ε α} {a : α} (hr : r w.unread = .ok a (w.unread.drop j)) :
    w.run r = (.ok a, w.keepLast (w.size - j)) := by
  rw [run, value?, left, hr, List.length_drop, length_unread]

theorem run_eq_of_error {r : Reader ε α} {e : ε} (hr : r w.unread = .error e w.unread) :
    w.run r = (.error e, w) := by
  rw [run, value?, left, hr, length_unread, keepLast_size]

theorem length_left_le {r : Reader ε α} (hr : TakesFront r) (w : Window) :
    (r.left w.unread).length ≤ w.size := by
  rw [← length_unread]
  exact (hr w.unread).length_le

theorem unread_run {r : Reader ε α} (hr : TakesFront r) :
    (w.run r).2.unread = r.left w.unread := by
  have hle := length_left_le hr w
  have hlength : (r.left w.unread).length = w.size - (w.size - (r.left w.unread).length) := by
    omega
  show (w.keepLast (r.left w.unread).length).unread = _
  rw [hlength, unread_keepLast (Nat.sub_le _ _), List.suffix_iff_eq_drop.mp (hr w.unread)]
  rw [length_unread, List.length_drop, length_unread]
  congr 1
  omega

/-- Of two readers in sequence the second runs on the window that the first leaves. -/
theorem run_bind {r : Reader ε α} (hr : TakesFront r) (f : α → Reader ε β) :
    w.run (r >>= f) =
      match (w.run r).1 with
      | .ok a => (w.run r).2.run (f a)
      | .error e => (.error e, (w.run r).2) := by
  have hunread := unread_run (w := w) hr
  cases h : r w.unread with
  | error e rest =>
    simp only [run, value?, left, h, Bind.bind, EStateM.bind]
  | ok a rest =>
    rw [left, h] at hunread
    simp only [run, value?, left, h, Bind.bind, EStateM.bind] at hunread ⊢
    rw [hunread]
    rfl

end Window

/-! ### Accesses -/

namespace Buffer

open Reader

/-- A buffer whose position and end are in order. -/
def ofWindow (w : Window) : Buffer := ⟨w.bytes, w.pos, w.stop⟩

variable {α β : Type} {p : Access α} {b b' : Buffer} {w : Window} {n : Nat}

theorem bind_ok {f : α → Access β} {a : α} (h : p b = some (.ok a, b')) : (p >>= f) b = f a b' := by
  simp [Bind.bind, ExceptT.bind, ExceptT.mk, StateT.bind, ExceptT.bindCont, h]

theorem bind_error {f : α → Access β} {e : BufferError} (h : p b = some (.error e, b')) :
    (p >>= f) b = some (.error e, b') := by
  simp [Bind.bind, ExceptT.bind, ExceptT.mk, StateT.bind, ExceptT.bindCont, h]
  rfl

/-- The access does to a buffer in order what the reader does to the window; it is no fault. -/
def Access.Does (p : Access α) (r : Reader BufferError α) : Prop :=
  ∀ w : Window, p (ofWindow w) = some ((w.run r).1, ofWindow (w.run r).2)

namespace Access.Does

variable {r : Reader BufferError α}

theorem pure (a : α) : Access.Does (Pure.pure a) (Pure.pure a : Reader BufferError α) := by
  intro w
  have hread : (Pure.pure a : Reader BufferError α) w.unread = .ok a (w.unread.drop 0) := rfl
  rw [Window.run_eq_of_ok hread, Nat.sub_zero, Window.keepLast_size]
  rfl

theorem throw (e : BufferError) :
    Access.Does (MonadExcept.throw e) (MonadExcept.throw e : Reader BufferError α) := by
  intro w
  have hread : (MonadExcept.throw e : Reader BufferError α) w.unread = .error e w.unread := rfl
  rw [Window.run_eq_of_error hread]
  rfl

theorem bind (hp : p.Does r) (hr : TakesFront r) {f : α → Access β} {g : α → Reader BufferError β}
    (hf : ∀ a, (f a).Does (g a)) : (p >>= f).Does (r >>= g) := by
  intro w
  have hw := hp w
  rw [Window.run_bind hr]
  cases h : (w.run r).1 with
  | ok a =>
    rw [h] at hw
    rw [bind_ok hw]
    exact hf a _
  | error e =>
    rw [h] at hw
    exact bind_error hw

theorem map (hp : p.Does r) (f : α → β) : Access.Does (f <$> p) (f <$> r) := by
  intro w
  have hw := hp w
  have hmap : w.run (f <$> r) = ((w.run r).1.map f, (w.run r).2) := by
    simp only [Window.run, value?, left, Functor.map, EStateM.map]
    cases r w.unread <;> rfl
  rw [hmap, map_eq_pure_bind]
  cases h : (w.run r).1 with
  | ok a =>
    rw [h] at hw
    exact bind_ok hw
  | error e =>
    rw [h] at hw
    exact bind_error hw

end Access.Does

/-! ### Each access and its reader -/

theorem size_ofWindow (w : Window) : size (ofWindow w) = some (.ok w.size, ofWindow w) :=
  if_pos w.pos_le_stop

theorem ensure_of_le (h : n ≤ w.size) : ensure n (ofWindow w) = some (.ok (), ofWindow w) := by
  rw [ensure, bind_ok (size_ofWindow w), if_neg (Nat.not_lt.mpr h)]
  rfl

theorem ensure_of_lt (h : w.size < n) :
    ensure n (ofWindow w) = some (.error .endOfBuffer, ofWindow w) := by
  rw [ensure, bind_ok (size_ofWindow w), if_pos h]
  rfl

theorem ofWindow_keepLast (h : n ≤ w.size) :
    ofWindow (w.keepLast (w.size - n)) = ⟨w.bytes, w.pos + n, w.stop⟩ := by
  rw [ofWindow, Window.pos_keepLast h]
  rfl

theorem advance_ofWindow (h : n ≤ w.size) :
    advance n (ofWindow w) = some (.ok (), ofWindow (w.keepLast (w.size - n))) := by
  rw [ofWindow_keepLast h]
  rfl

theorem index_ofWindow {byte : UInt8} {rest : List UInt8} (h : w.unread = byte :: rest) :
    index w.pos (ofWindow w) = some (.ok byte, ofWindow w) := by
  have hget : w.bytes[w.pos]? = some byte := by
    have hfirst := congrArg (·[0]?) h
    rw [Window.unread] at hfirst
    simp only [List.getElem?_take, List.getElem?_drop, List.getElem?_cons_zero] at hfirst
    split at hfirst
    · simpa using hfirst
    · cases hfirst
  rw [index, ofWindow, hget]
  rfl

theorem range_ofWindow (h : n ≤ w.size) :
    range w.pos (w.pos + n) (ofWindow w) = some (.ok (w.unread.take n), ofWindow w) := by
  have hpos := w.pos_le_stop
  have hstop := w.stop_le_length
  have hbound : w.pos ≤ w.pos + n ∧ w.pos + n ≤ w.bytes.length := by
    rw [Window.size] at h
    omega
  have htake : (w.bytes.drop w.pos).take (w.pos + n - w.pos) = w.unread.take n := by
    rw [Window.unread, List.take_take, Nat.min_eq_left h, Nat.add_sub_cancel_left]
  rw [range, ofWindow, if_pos hbound, htake]

theorem unread_cases (w : Window) :
    w.size < 1 ∧ w.unread = [] ∨ ∃ byte rest, 1 ≤ w.size ∧ w.unread = byte :: rest := by
  cases hunread : w.unread with
  | nil =>
    refine .inl ⟨?_, rfl⟩
    rw [← Window.length_unread, hunread]
    exact Nat.zero_lt_one
  | cons byte rest =>
    refine .inr ⟨byte, rest, ?_, rfl⟩
    rw [← Window.length_unread, hunread]
    exact Nat.succ_pos _

theorem does_peek : peek.Does Reader.peek := by
  intro w
  obtain ⟨h, hunread⟩ | ⟨first, rest, h, hunread⟩ := unread_cases w
  · have hread : Reader.peek w.unread = .error .endOfBuffer w.unread := by rw [hunread]; rfl
    rw [peek, bind_error (ensure_of_lt h), Window.run_eq_of_error hread]
  · have hread : Reader.peek w.unread = .ok first (w.unread.drop 0) := by rw [hunread]; rfl
    rw [peek, bind_ok (ensure_of_le h), Window.run_eq_of_ok hread, Nat.sub_zero,
      Window.keepLast_size]
    exact index_ofWindow hunread

theorem does_byte : byte.Does Reader.byte := by
  intro w
  obtain ⟨h, hunread⟩ | ⟨first, rest, h, hunread⟩ := unread_cases w
  · have hread : Reader.byte w.unread = .error .endOfBuffer w.unread := by rw [hunread]; rfl
    rw [byte, bind_error (ensure_of_lt h), Window.run_eq_of_error hread]
  · have hread : Reader.byte w.unread = .ok first (w.unread.drop 1) := by rw [hunread]; rfl
    rw [byte, bind_ok (ensure_of_le h), Window.run_eq_of_ok hread]
    show (index w.pos >>= fun byte => advance 1 >>= fun _ => Pure.pure byte) (ofWindow w) = _
    rw [bind_ok (index_ofWindow hunread), bind_ok (advance_ofWindow h)]
    rfl

theorem does_take (n : Nat) : (take n).Does (Reader.take n) := by
  intro w
  by_cases h : n ≤ w.size
  · have hread : Reader.take n w.unread = .ok (w.unread.take n) (w.unread.drop n) := by
      rw [Reader.take, if_pos (by rwa [Window.length_unread])]
    rw [take, bind_ok (ensure_of_le h), Window.run_eq_of_ok hread]
    show (range w.pos (w.pos + n) >>= fun bytes => advance n >>= fun _ => Pure.pure bytes)
      (ofWindow w) = _
    rw [bind_ok (range_ofWindow h), bind_ok (advance_ofWindow h)]
    rfl
  · have hread : Reader.take n w.unread = .error .endOfBuffer w.unread := by
      rw [Reader.take, if_neg (by rwa [Window.length_unread])]
    rw [take, bind_error (ensure_of_lt (Nat.not_le.mp h)), Window.run_eq_of_error hread]

theorem does_skip (n : Nat) : (skip n).Does (Reader.skip n) := by
  intro w
  by_cases h : n ≤ w.size
  · have hread : Reader.skip n w.unread = .ok () (w.unread.drop n) := by
      simp only [Reader.skip, Functor.map, EStateM.map, Reader.take, Window.length_unread, h,
        ↓reduceIte]
    rw [skip, bind_ok (ensure_of_le h), Window.run_eq_of_ok hread]
    exact advance_ofWindow h
  · have hread : Reader.skip n w.unread = .error .endOfBuffer w.unread := by
      simp only [Reader.skip, Functor.map, EStateM.map, Reader.take, Window.length_unread, h,
        ↓reduceIte]
    rw [skip, bind_error (ensure_of_lt (Nat.not_le.mp h)), Window.run_eq_of_error hread]

theorem does_fixed (width : Nat) : (fixed width).Does (Reader.fixed width) :=
  (does_take width).map littleEndianValue

theorem utf8_eq_bind (n : Nat) : Reader.utf8 n = Reader.take n >>= fun bytes =>
    match String.fromUTF8? ⟨bytes.toArray⟩ with
    | some text => Pure.pure text
    | none => MonadExcept.throw .invalidUtf8 := by
  funext bs
  simp only [Reader.utf8, Bind.bind, EStateM.bind]
  cases Reader.take n bs with
  | error e rest => rfl
  | ok bytes rest =>
    dsimp only
    cases String.fromUTF8? ⟨bytes.toArray⟩ <;> rfl

theorem does_utf8 (n : Nat) : (utf8 n).Does (Reader.utf8 n) := by
  rw [utf8_eq_bind]
  refine (does_take n).bind (takesFront_take n) fun bytes => ?_
  cases String.fromUTF8? ⟨bytes.toArray⟩ with
  | some text => exact .pure text
  | none => exact .throw .invalidUtf8

theorem takesFront_utf8 (n : Nat) : TakesFront (Reader.utf8 n) := by
  rw [utf8_eq_bind]
  refine (takesFront_take n).bind fun bytes => ?_
  cases String.fromUTF8? ⟨bytes.toArray⟩ with
  | some text => exact takesFront_pure text
  | none => exact takesFront_throw BufferError.invalidUtf8

theorem readUpTo_zero_eq_bind : Varint.readUpTo 0 = Reader.byte >>= fun b =>
    if b.toNat ≤ 1 then Pure.pure b.toNat else MonadExcept.throw .varintOverflow := by
  funext bs
  cases bs with
  | nil => rfl
  | cons b bs =>
    simp only [Varint.readUpTo, Reader.byte, Bind.bind, EStateM.bind]
    split <;> rfl

theorem readUpTo_succ_eq_bind (more : Nat) : Varint.readUpTo (more + 1) = Reader.byte >>= fun b =>
    if b.toNat < 128 then Pure.pure b.toNat
    else Varint.readUpTo more >>= fun n => Pure.pure (b.toNat - 128 + 128 * n) := by
  funext bs
  cases bs with
  | nil => rfl
  | cons b bs =>
    simp only [Varint.readUpTo, Reader.byte, Bind.bind, EStateM.bind]
    split
    · rfl
    · show _ = EStateM.bind (Varint.readUpTo more) _ bs
      rw [EStateM.bind]
      cases Varint.readUpTo more bs <;> rfl

theorem takesFront_readUpTo (more : Nat) : TakesFront (Varint.readUpTo more) := by
  induction more with
  | zero =>
    rw [readUpTo_zero_eq_bind]
    refine takesFront_byte.bind fun b => ?_
    split
    · exact takesFront_pure _
    · exact takesFront_throw _
  | succ more ih =>
    rw [readUpTo_succ_eq_bind]
    refine takesFront_byte.bind fun b => ?_
    split
    · exact takesFront_pure _
    · exact ih.bind fun n => takesFront_pure _

theorem does_varintUpTo (more : Nat) : (varintUpTo more).Does (Varint.readUpTo more) := by
  induction more with
  | zero =>
    rw [readUpTo_zero_eq_bind, varintUpTo]
    refine does_byte.bind takesFront_byte fun b => ?_
    split
    · exact .pure _
    · exact .throw _
  | succ more ih =>
    rw [readUpTo_succ_eq_bind, varintUpTo]
    refine does_byte.bind takesFront_byte fun b => ?_
    split
    · exact .pure _
    · exact ih.bind (takesFront_readUpTo more) fun n => .pure _

/-! ### Requests -/

/-- How many bytes are left. -/
def sizeReader : Reader BufferError Nat := fun bs => .ok bs.length bs

/-- Whether no bytes are left. -/
def isEmptyReader : Reader BufferError Bool := fun bs => .ok bs.isEmpty bs

/-- What a request is to a reader of the bytes in front of it. -/
def Request.reader : Request → Reader BufferError Answer
  | .byte => .byte <$> Reader.byte
  | .peek => .byte <$> Reader.peek
  | .uint32 => (.uint32 ·.toUInt32) <$> Reader.fixed 4
  | .int32 => (.int32 ·.toInt32) <$> Reader.fixed 4
  | .uint64 => (.uint64 ·.toUInt64) <$> Reader.fixed 8
  | .int64 => (.int64 ·.toInt64) <$> Reader.fixed 8
  | .float => (.float ·.toUInt32) <$> Reader.fixed 4
  | .double => (.double ·.toUInt64) <$> Reader.fixed 8
  | .varint => .number <$> Varint.read
  | .size => .number <$> sizeReader
  | .isEmpty => .flag <$> isEmptyReader
  | .skip n => (fun _ => .done) <$> Reader.skip n
  | .take n => .bytes <$> Reader.take n
  | .utf8 n => .text <$> Reader.utf8 n

theorem does_size : size.Does sizeReader := by
  intro w
  have hread : sizeReader w.unread = .ok w.size (w.unread.drop 0) := by
    rw [sizeReader, Window.length_unread]
    rfl
  rw [size_ofWindow, Window.run_eq_of_ok hread, Nat.sub_zero, Window.keepLast_size]

theorem does_isEmpty : isEmpty.Does isEmptyReader := by
  intro w
  have hempty : w.unread.isEmpty = decide (w.stop ≤ w.pos) := by
    rw [Bool.eq_iff_iff, List.isEmpty_iff_length_eq_zero, Window.length_unread, decide_eq_true_eq,
      Window.size]
    omega
  have hread : isEmptyReader w.unread = .ok (decide (w.stop ≤ w.pos)) (w.unread.drop 0) := by
    rw [isEmptyReader, hempty]
    rfl
  rw [Window.run_eq_of_ok hread, Nat.sub_zero, Window.keepLast_size]
  rfl

theorem does_ask (request : Request) : (ask request).Does request.reader := by
  cases request with
  | byte => exact does_byte.map _
  | peek => exact does_peek.map _
  | uint32 | int32 | float => exact (does_fixed 4).map _
  | uint64 | int64 | double => exact (does_fixed 8).map _
  | varint => exact (does_varintUpTo 9).map _
  | size => exact does_size.map _
  | isEmpty => exact does_isEmpty.map _
  | skip n => exact (does_skip n).map _
  | take n => exact (does_take n).map _
  | utf8 n => exact (does_utf8 n).map _

theorem takesFront_reader (request : Request) : TakesFront request.reader := by
  have hsame {α : Type} (f : List UInt8 → α) :
      TakesFront (fun bs => .ok (f bs) bs : Reader BufferError α) := fun bs => List.suffix_refl bs
  cases request with
  | byte => exact takesFront_byte.map _
  | peek => exact takesFront_peek.map _
  | uint32 | int32 | float => exact ((takesFront_take 4).map _).map _
  | uint64 | int64 | double => exact ((takesFront_take 8).map _).map _
  | varint => exact (takesFront_readUpTo 9).map _
  | size => exact (hsame _).map _
  | isEmpty => exact (hsame _).map _
  | skip n => exact ((takesFront_take n).map _).map _
  | take n => exact (takesFront_take n).map _
  | utf8 n => exact (takesFront_utf8 n).map _

/-! ### Positions -/

/-- The position and the end are in order, and within the bytes. -/
structure InOrder (bytes : List UInt8) (b : Buffer) : Prop where
  bytes_eq : b.bytes = bytes
  pos_le : b.pos ≤ b.stop
  le_length : b.stop ≤ bytes.length

/-- What may be done to a buffer: its position moves forward, and nothing else. -/
structure Forward (b b' : Buffer) : Prop where
  bytes_eq : b'.bytes = b.bytes
  le_pos : b.pos ≤ b'.pos
  stop_eq : b'.stop = b.stop

/-- Whether a failure leaves the position where it was. Numbers and texts are taken before they are
found to be malformed. -/
def Request.restores : Request → Bool
  | .varint | .utf8 _ => false
  | _ => true

theorem restores_reader {request : Request} (h : request.restores) :
    Restores request.reader := by
  cases request with
  | byte => exact restores_byte.map _
  | peek => exact restores_peek.map _
  | uint32 | int32 | float => exact ((restores_take 4).map _).map _
  | uint64 | int64 | double => exact ((restores_take 8).map _).map _
  | varint => cases h
  | size | isEmpty =>
    intro bs e rest heq
    cases heq
  | skip n => exact ((restores_take n).map _).map _
  | take n => exact (restores_take n).map _
  | utf8 n => cases h

theorem inOrder_ofWindow (w : Window) : InOrder w.bytes (ofWindow w) :=
  ⟨rfl, w.pos_le_stop, w.stop_le_length⟩

theorem InOrder.exists_window {bytes : List UInt8} (h : InOrder bytes b) :
    ∃ w : Window, w.bytes = bytes ∧ ofWindow w = b := by
  obtain ⟨rfl, hpos, hstop⟩ := h
  exact ⟨⟨b.bytes, b.pos, b.stop, hpos, hstop⟩, rfl, rfl⟩

theorem forward_run {r : Reader BufferError α} (hr : TakesFront r) (w : Window) :
    Forward (ofWindow w) (ofWindow (w.run r).2) := by
  have hleft := Window.length_left_le hr w
  have hpos := w.pos_le_stop
  refine ⟨rfl, ?_, rfl⟩
  show w.pos ≤ w.stop - (r.left w.unread).length
  rw [Window.size] at hleft
  omega

theorem cut_of_le (h : w.pos + n ≤ w.stop) : Buffer.cut n (ofWindow w) =
    some (.ok ⟨w.bytes, w.pos, w.pos + n⟩, ⟨w.bytes, w.pos + n, w.stop⟩) := by
  have hstop := w.stop_le_length
  have hsize : n ≤ w.size := by
    rw [Window.size]
    omega
  have hinner : slice w.bytes w.pos (w.pos + n) = ⟨w.bytes, w.pos, w.pos + n⟩ := by
    rw [slice, Nat.min_eq_left (by omega), Nat.min_eq_left (by omega)]
  rw [Buffer.cut, bind_ok (ensure_of_le hsize)]
  show (advance n >>= fun _ => Pure.pure (slice w.bytes w.pos (w.pos + n))) (ofWindow w) = _
  rw [bind_ok (advance_ofWindow hsize), hinner, ofWindow_keepLast hsize]
  rfl

theorem cut_of_lt (h : w.stop < w.pos + n) :
    Buffer.cut n (ofWindow w) = some (.error .endOfBuffer, ofWindow w) := by
  have hpos := w.pos_le_stop
  have hsize : w.size < n := by
    rw [Window.size]
    omega
  rw [Buffer.cut, bind_error (ensure_of_lt hsize)]

/-! ### A part of some bytes, and a copy of it -/

/-- The buffer on all of the bytes that stands where this one does on a part of them. -/
def placed (bytes : List UInt8) (first : Nat) (b : Buffer) : Buffer :=
  ⟨bytes, first + b.pos, first + b.stop⟩

/-- The same as seen on all of the bytes. -/
def Seen.shift (first : Nat) (s : Seen) : Seen := ⟨s.outcome, first + s.pos, first + s.stop⟩

section

variable {bytes : List UInt8} {start stop first : Nat} {v : Window}

theorem length_part (bytes : List UInt8) (start stop : Nat) :
    ((bytes.take stop).drop start).length =
      min stop bytes.length - min start (min stop bytes.length) := by
  rw [List.length_drop, List.length_take]
  omega

/-- A window on the part is one on all of the bytes that shows the same. -/
theorem exists_window_placed (hv : v.bytes = (bytes.take stop).drop start)
    (hfirst : first = min start (min stop bytes.length)) :
    ∃ w : Window, ofWindow w = placed bytes first (ofWindow v) ∧ w.unread = v.unread := by
  have hpos := v.pos_le_stop
  have hstop := v.stop_le_length
  rw [hv, length_part] at hstop
  refine ⟨⟨bytes, first + v.pos, first + v.stop, by omega, by omega⟩, rfl, ?_⟩
  have hsize : first + v.stop - (first + v.pos) = v.stop - v.pos := by omega
  simp only [Window.unread, Window.size, hsize, hv]
  by_cases hempty : v.stop = v.pos
  · rw [hempty, Nat.sub_self, List.take_zero, List.take_zero]
  · have hstart : first = start := by omega
    rw [List.drop_drop, List.drop_take, List.take_take, hstart]
    congr 1
    omega

theorem run_placed {r : Reader BufferError α} {w : Window} (hr : TakesFront r)
    (hw : ofWindow w = placed bytes first (ofWindow v)) (hunread : w.unread = v.unread) :
    (w.run r).1 = (v.run r).1 ∧
      ofWindow (w.run r).2 = placed bytes first (ofWindow (v.run r).2) := by
  have hleft := Window.length_left_le hr v
  have hpos := v.pos_le_stop
  have hbytes : w.bytes = bytes := congrArg Buffer.bytes hw
  have hstop : w.stop = first + v.stop := congrArg Buffer.stop hw
  rw [Window.size] at hleft
  refine ⟨by rw [Window.run, Window.run, hunread], ?_⟩
  simp only [Window.run, Window.keepLast, ofWindow, placed, Buffer.mk.injEq, hunread, hbytes, hstop,
    and_true, true_and]
  omega

/-- Placed in order on the part, a buffer is in order on all of the bytes, and within the part. -/
theorem InOrder.placed (hfirst : first = min start (min stop bytes.length))
    (hb : InOrder ((bytes.take stop).drop start) b) :
    InOrder bytes (placed bytes first b) ∧ first + b.stop ≤ min stop bytes.length := by
  have hpos := hb.pos_le
  have hstop := hb.le_length
  rw [length_part] at hstop
  refine ⟨⟨rfl, Nat.add_le_add_left hpos first, ?_⟩, by omega⟩
  show first + b.stop ≤ bytes.length
  omega

end

/-! ### Operations -/

/-- A request may fail and leave the position where it was; a cut always does. -/
def Operation.restores : Operation → Bool
  | .ask request => request.restores
  | .cut _ => true

/-- What an operation does to a buffer in order. -/
structure Performed (op : Operation) (b : Buffer) (outcome : Except BufferError Answer)
    (b' : Buffer) (opened : List Buffer) : Prop where
  inOrder : InOrder b.bytes b'
  forward : Forward b b'
  inOrder_opened : ∀ c ∈ opened, InOrder b.bytes c
  restored : ∀ e, outcome = .error e → op.restores → b' = b ∧ opened = []
  cut : ∀ n, op = .cut n → outcome = .ok .done → b.pos + n ≤ b.stop ∧
    b' = { b with pos := b.pos + n } ∧ opened = [⟨b.bytes, b.pos, b.pos + n⟩]

theorem perform_ofWindow (op : Operation) (w : Window) :
    ∃ outcome b' opened, perform op (ofWindow w) = some (outcome, b', opened) ∧
      Performed op (ofWindow w) outcome b' opened := by
  cases op with
  | ask request =>
    have hfront := takesFront_reader request
    refine ⟨(w.run request.reader).1, ofWindow (w.run request.reader).2, [], ?_,
      inOrder_ofWindow (w.run request.reader).2, forward_run hfront w, List.forall_mem_nil _,
      fun e he hrestores => ⟨?_, rfl⟩, fun n hop => by cases hop⟩
    · rw [perform, does_ask request w]
      rfl
    · have hread : request.reader w.unread = .error e w.unread := by
        rw [Window.run, value?] at he
        split at he
        · cases he
        · rename_i e' rest h
          cases he
          rw [h, restores_reader hrestores _ _ _ h]
      rw [Window.run_eq_of_error hread]
  | cut n =>
    rcases Nat.lt_or_ge w.stop (w.pos + n) with hlt | hle
    · refine ⟨.error .endOfBuffer, ofWindow w, [], ?_, inOrder_ofWindow w,
        ⟨rfl, Nat.le_refl _, rfl⟩, List.forall_mem_nil _, fun _ _ _ => ⟨rfl, rfl⟩,
        fun n _ houtcome => by cases houtcome⟩
      rw [perform, cut_of_lt hlt]
      rfl
    · refine ⟨.ok .done, ⟨w.bytes, w.pos + n, w.stop⟩, [⟨w.bytes, w.pos, w.pos + n⟩], ?_,
        ⟨rfl, hle, w.stop_le_length⟩, ⟨rfl, Nat.le_add_right _ _, rfl⟩, ?_,
        fun e houtcome => (by cases houtcome), ?_⟩
      · rw [perform, cut_of_le hle]
        rfl
      · exact List.forall_mem_singleton.mpr
          ⟨rfl, Nat.le_add_right _ _, Nat.le_trans hle w.stop_le_length⟩
      · rintro _ ⟨⟩ -
        exact ⟨hle, rfl, rfl⟩

/-! ### In step with a copy -/

section

variable {bytes : List UInt8} {start stop first : Nat} {bs : List Buffer}

/-- An operation goes on all of the bytes as it goes on the part. -/
theorem perform_placed (hfirst : first = min start (min stop bytes.length))
    (hb : InOrder ((bytes.take stop).drop start) b) (op : Operation) :
    perform op (placed bytes first b) =
      (perform op b).map fun (outcome, b', opened) =>
        (outcome, placed bytes first b', opened.map (placed bytes first)) := by
  obtain ⟨v, hv, rfl⟩ := hb.exists_window
  obtain ⟨w, hw, hunread⟩ := exists_window_placed hv hfirst
  rw [← hw]
  cases op with
  | ask request =>
    obtain ⟨houtcome, hplaced⟩ := run_placed (takesFront_reader request) hw hunread
    rw [perform, perform, does_ask request w, does_ask request v, houtcome, hplaced]
    rfl
  | cut n =>
    have hbytes : w.bytes = bytes := congrArg Buffer.bytes hw
    have hpos : w.pos = first + v.pos := congrArg Buffer.pos hw
    have hstop : w.stop = first + v.stop := congrArg Buffer.stop hw
    rw [perform, perform]
    rcases Nat.lt_or_ge v.stop (v.pos + n) with hlt | hle
    · rw [cut_of_lt hlt, cut_of_lt (by omega), hw]
      rfl
    · rw [cut_of_le hle, cut_of_le (by omega), hbytes, hpos, hstop, Nat.add_assoc]
      rfl

/-- What an operation on one of several buffers does to all of them. -/
structure Stepped (bs : List Buffer) (i : Nat) (op : Operation) (seen : Option Seen)
    (bs' : List Buffer) : Prop where
  /-- No other buffer is touched, be it cut off from this one or this one from it. -/
  others : ∀ j < bs.length, j ≠ i → bs'[j]? = bs[j]?
  /-- The position goes forward, and it is seen where it went. -/
  forward : ∀ b, bs[i]? = some b → ∃ b' s, bs'[i]? = some b' ∧ Forward b b' ∧ seen = some s ∧
    s.pos = b'.pos ∧ s.stop = b'.stop
  restored : ∀ s ∈ seen, ∀ e, s.outcome = .error e → op.restores → bs' = bs
  /-- Behind a cut the position is where the part that was cut off ends. -/
  cut : ∀ b n, bs[i]? = some b → op = .cut n → ∀ s ∈ seen, s.outcome = .ok .done →
    b.pos + n ≤ b.stop ∧ bs' = bs.set i { b with pos := b.pos + n } ++
      [⟨b.bytes, b.pos, b.pos + n⟩]

theorem step_inOrder (hbs : ∀ b ∈ bs, InOrder bytes b) (i : Nat) (op : Operation) :
    ∃ seen bs', step bs i op = some (seen, bs') ∧ (∀ b ∈ bs', InOrder bytes b) ∧
      (∀ s ∈ seen, s.pos ≤ s.stop ∧ s.stop ≤ bytes.length) ∧ Stepped bs i op seen bs' := by
  cases hi : bs[i]? with
  | none =>
    refine ⟨none, bs, by rw [step, hi], hbs, nofun, fun _ _ _ => rfl, ?_, nofun, ?_⟩
    · intro b hb
      rw [hi] at hb
      cases hb
    · intro b n hb
      rw [hi] at hb
      cases hb
  | some b =>
    obtain ⟨w, hw, rfl⟩ := (hbs b (List.mem_of_getElem? hi)).exists_window
    have hlt : i < bs.length := (List.getElem?_eq_some_iff.mp hi).1
    obtain ⟨outcome, b', opened, hperform, hperformed⟩ := perform_ofWindow op w
    have horder : InOrder bytes b' := hw ▸ hperformed.inOrder
    have hset : (bs.set i b' ++ opened)[i]? = some b' := by
      rw [List.getElem?_append_left (by rwa [List.length_set]), List.getElem?_set_self hlt]
    refine ⟨some ⟨outcome, b'.pos, b'.stop⟩, bs.set i b' ++ opened, ?_, ?_, ?_, ?_⟩
    · rw [step, hi]
      show (perform op (ofWindow w)).map _ = _
      rw [hperform]
      rfl
    · intro c hc
      rcases List.mem_append.mp hc with hc | hc
      · rcases List.mem_or_eq_of_mem_set hc with hc | rfl
        · exact hbs c hc
        · exact horder
      · exact hw ▸ hperformed.inOrder_opened c hc
    · rintro _ ⟨⟩
      exact ⟨horder.pos_le, horder.le_length⟩
    · refine ⟨fun j hj hne => ?_, fun c hc => ?_, ?_, ?_⟩
      · rw [List.getElem?_append_left (by rwa [List.length_set]),
          List.getElem?_set_ne hne.symm]
      · rw [hi] at hc
        cases hc
        exact ⟨b', _, hset, hperformed.forward, rfl, rfl, rfl⟩
      · rintro _ ⟨⟩ e he hrestores
        obtain ⟨rfl, rfl⟩ := hperformed.restored e he hrestores
        obtain ⟨_, hget⟩ := List.getElem?_eq_some_iff.mp hi
        rw [List.append_nil, ← hget, List.set_getElem_self]
      · rintro c n hc hop _ ⟨⟩ houtcome
        rw [hi] at hc
        cases hc
        obtain ⟨hle, rfl, rfl⟩ := hperformed.cut n hop houtcome
        exact ⟨hle, rfl⟩

theorem step_placed (hfirst : first = min start (min stop bytes.length))
    (hbs : ∀ b ∈ bs, InOrder ((bytes.take stop).drop start) b) (i : Nat) (op : Operation) :
    step (bs.map (placed bytes first)) i op =
      (step bs i op).map fun (seen, bs') =>
        (seen.map (Seen.shift first), bs'.map (placed bytes first)) := by
  rw [step, step, List.getElem?_map]
  cases hi : bs[i]? with
  | none => rfl
  | some b =>
    show (perform op (placed bytes first b)).map _ = ((perform op b).map _).map _
    rw [perform_placed hfirst (hbs b (List.mem_of_getElem? hi)), Option.map_map, Option.map_map]
    congr 1
    funext ⟨outcome, b', opened⟩
    simp only [Function.comp_apply, List.map_append, List.map_set]
    rfl

/-- The induction is on the operations; all that it needs of the buffers is that they are in order,
which every step keeps. -/
theorem run_placed_eq (hfirst : first = min start (min stop bytes.length))
    (hbs : ∀ b ∈ bs, InOrder ((bytes.take stop).drop start) b) (ops : List (Nat × Operation)) :
    ∃ seen bs', run bs ops = some (seen, bs') ∧
      (∀ b ∈ bs', InOrder ((bytes.take stop).drop start) b) ∧
      (∀ s ∈ seen, s.pos ≤ s.stop ∧ s.stop ≤ ((bytes.take stop).drop start).length) ∧
      run (bs.map (placed bytes first)) ops =
        some (seen.map (Seen.shift first), bs'.map (placed bytes first)) := by
  induction ops generalizing bs with
  | nil => exact ⟨[], bs, rfl, hbs, nofun, rfl⟩
  | cons o ops ih =>
    obtain ⟨i, op⟩ := o
    obtain ⟨seen, bs₁, hstep, hbs₁, hseen, -⟩ := step_inOrder hbs i op
    obtain ⟨more, bs₂, hrun, hbs₂, hmore, hplaced⟩ := ih hbs₁
    have hstep' := step_placed hfirst hbs i op
    rw [hstep] at hstep'
    refine ⟨seen.toList ++ more, bs₂, ?_, hbs₂, fun s hs => ?_, ?_⟩
    · rw [run, hstep]
      show (run bs₁ ops).bind _ = _
      rw [hrun]
      rfl
    · rcases List.mem_append.mp hs with hs | hs
      · exact hseen s (Option.mem_toList.mp hs)
      · exact hmore s hs
    · rw [run, hstep']
      show (run (bs₁.map (placed bytes first)) ops).bind _ = _
      rw [hplaced, List.map_append]
      cases seen <;> rfl

end

/-- A buffer on a part of some bytes cannot be told from one on a copy of this part. Whatever is
done to the two, in any order and also to what is cut off from them, nothing is a fault, and what is
seen is the same save that all positions lie further on by where the part starts. No position leaves
the part, or comes behind its end. One more operation leaves all buffers but one as they are; this
one moves forward, except that a failure leaves it in its place unless a number or a text was
malformed, and it stands right behind what is cut off from it. -/
theorem slice_like_copy (bytes : List UInt8) (start stop : Nat) (ops : List (Nat × Operation)) :
    let last := min stop bytes.length
    let first := min start last
    ∃ seen copies, run [ofBytes ((bytes.take stop).drop start)] ops = some (seen, copies) ∧
      run [slice bytes start stop] ops =
        some (seen.map (Seen.shift first), copies.map (placed bytes first)) ∧
      (∀ s ∈ seen.map (Seen.shift first), first ≤ s.pos ∧ s.pos ≤ s.stop ∧ s.stop ≤ last) ∧
      (∀ b ∈ copies.map (placed bytes first),
        b.bytes = bytes ∧ first ≤ b.pos ∧ b.pos ≤ b.stop ∧ b.stop ≤ last) ∧
      ∀ i op, ∃ s buffers, step (copies.map (placed bytes first)) i op = some (s, buffers) ∧
        Stepped (copies.map (placed bytes first)) i op s buffers := by
  intro last first
  have hfirst : first = min start (min stop bytes.length) := rfl
  have hcopy : ∀ b ∈ [ofBytes ((bytes.take stop).drop start)],
      InOrder ((bytes.take stop).drop start) b :=
    List.forall_mem_singleton.mpr ⟨rfl, Nat.zero_le _, Nat.le_refl _⟩
  have hslice : [ofBytes ((bytes.take stop).drop start)].map (placed bytes first) =
      [slice bytes start stop] := by
    have hend : first + ((bytes.take stop).drop start).length = last := by
      rw [length_part]
      omega
    rw [List.map_singleton, placed, ofBytes, hend]
    rfl
  obtain ⟨seen, copies, hrun, hcopies, hseen, hplaced⟩ := run_placed_eq hfirst hcopy ops
  rw [hslice] at hplaced
  refine ⟨seen, copies, hrun, hplaced, ?_, ?_, fun i op => ?_⟩
  · rintro _ hmem
    obtain ⟨s, hs, rfl⟩ := List.mem_map.mp hmem
    obtain ⟨hpos, hstop⟩ := hseen s hs
    rw [length_part] at hstop
    refine ⟨Nat.le_add_right _ _, Nat.add_le_add_left hpos first, ?_⟩
    show first + s.stop ≤ last
    omega
  · rintro _ hmem
    obtain ⟨b, hb, rfl⟩ := List.mem_map.mp hmem
    obtain ⟨horder, hlast⟩ := (hcopies b hb).placed hfirst
    exact ⟨rfl, Nat.le_add_right _ _, horder.pos_le, hlast⟩
  · have horder : ∀ b ∈ copies.map (placed bytes first), InOrder bytes b := by
      rintro _ hmem
      obtain ⟨b, hb, rfl⟩ := List.mem_map.mp hmem
      exact ((hcopies b hb).placed hfirst).1
    obtain ⟨s, buffers, hstep, -, -, hstepped⟩ := step_inOrder horder i op
    exact ⟨s, buffers, hstep, hstepped⟩

end Buffer

end Protowire
