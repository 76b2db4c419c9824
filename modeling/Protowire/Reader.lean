/-!
Readers over a byte string. A reader takes what it wants from the front and leaves the rest; one
that fails also says what it left, since its caller may go on from there.
-/

namespace Protowire

/-- A reader of `α` that can fail with `ε`. Its state is the bytes not read yet. -/
abbrev Reader (ε α : Type) := EStateM ε (List UInt8) α

/-- Why bytes could not be taken from a buffer. -/
inductive BufferError
  | endOfBuffer | invalidUtf8 | varintOverflow
  deriving DecidableEq, Repr

def BufferError.message : BufferError → String
  | .endOfBuffer => "end of buffer"
  | .invalidUtf8 => "invalid UTF-8 sequence"
  | .varintOverflow => "varint overflows 64 bits"

/-- The number whose base-256 digits are the bytes, lowest first. -/
def littleEndianValue : List UInt8 → Nat
  | [] => 0
  | b :: bs => b.toNat + 256 * littleEndianValue bs

/-- The `width` lowest base-256 digits of `n`, lowest first. -/
def littleEndian : (width : Nat) → (n : Nat) → List UInt8
  | 0, _ => []
  | width + 1, n => UInt8.ofNat n :: littleEndian width (n / 256)

namespace Reader

variable {ε ε' α β : Type}

/-- The same reader with its errors renamed. -/
def mapError (f : ε → ε') (r : Reader ε α) : Reader ε' α := fun bs =>
  match r bs with
  | .ok a rest => .ok a rest
  | .error e rest => .error (f e) rest

/-- The result alone, without the bytes left. -/
def value? (r : Reader ε α) (bs : List UInt8) : Except ε α :=
  match r bs with
  | .ok a _ => .ok a
  | .error e _ => .error e

/-- The bytes left, whatever the result. -/
def left (r : Reader ε α) (bs : List UInt8) : List UInt8 :=
  match r bs with
  | .ok _ rest => rest
  | .error _ rest => rest

def byte : Reader BufferError UInt8
  | [] => .error .endOfBuffer []
  | b :: bs => .ok b bs

/-- The next byte, which stays where it is. -/
def peek : Reader BufferError UInt8
  | [] => .error .endOfBuffer []
  | b :: bs => .ok b (b :: bs)

/-- The next `n` bytes. When fewer are left, none is taken. -/
def take (n : Nat) : Reader BufferError (List UInt8) := fun bs =>
  if n ≤ bs.length then .ok (bs.take n) (bs.drop n) else .error .endOfBuffer bs

def skip (n : Nat) : Reader BufferError Unit := (fun _ => ()) <$> take n

/-- A number of `width` bytes, lowest byte first. -/
def fixed (width : Nat) : Reader BufferError Nat := littleEndianValue <$> take width

/-- The text that the next `n` bytes encode. Bytes that encode none are taken all the same. -/
def utf8 (n : Nat) : Reader BufferError String := fun bs =>
  match take n bs with
  | .error e rest => .error e rest
  | .ok text rest =>
    match String.fromUTF8? ⟨text.toArray⟩ with
    | some s => .ok s rest
    | none => .error .invalidUtf8 rest

/-! ### Readers only take from the front -/

/-- A success uses up at least one byte. -/
def Advances (r : Reader ε α) : Prop :=
  ∀ bs a rest, r bs = .ok a rest → rest.length < bs.length

theorem Advances.lt {r : Reader ε α} {bs rest : List UInt8} {a : α} (h : Advances r)
    (hr : r bs = .ok a rest) : rest.length < bs.length := h _ _ _ hr

theorem advances_map {r : Reader ε α} (h : Advances r) (f : α → β) : Advances (f <$> r) := by
  intro bs b rest heq
  simp only [Functor.map, EStateM.map] at heq
  split at heq
  · rename_i a s hr
    cases heq
    exact h.lt hr
  · cases heq

theorem advances_mapError {r : Reader ε α} (h : Advances r) (f : ε → ε') :
    Advances (mapError f r) := by
  intro bs a rest heq
  simp only [mapError] at heq
  split at heq
  · rename_i hr
    cases heq
    exact h.lt hr
  · cases heq

theorem take_ok {n : Nat} {bs text rest : List UInt8} (h : take n bs = .ok text rest) :
    bs = text ++ rest ∧ text.length = n := by
  simp only [take] at h
  split at h
  · rename_i hn
    cases h
    simp [hn]
  · cases h

theorem advances_take {n : Nat} (hn : 0 < n) : Advances (take n) := by
  intro bs text rest h
  obtain ⟨rfl, hlen⟩ := take_ok h
  simp only [List.length_append]
  omega

end Reader

end Protowire
