import Protowire.Varint

/-!
Reading by position. A buffer is a position and an end on bytes that it may share with others. Each
access goes by index, and nothing is known here of where the two positions stand: an index outside
of the bytes is a fault, and so is a size below zero.
-/

namespace Protowire

structure Buffer where
  bytes : List UInt8
  pos : Nat
  stop : Nat
  deriving DecidableEq, Repr

namespace Buffer

/-- What is done to a buffer. It comes to a fault, or else to an outcome and the buffer after it. -/
abbrev Access (α : Type) := ExceptT BufferError (StateT Buffer Option) α

def ofBytes (bytes : List UInt8) : Buffer := ⟨bytes, 0, bytes.length⟩

/-- The bytes from `start` to `stop`, both moved into range. -/
def slice (bytes : List UInt8) (start stop : Nat) : Buffer :=
  ⟨bytes, min start (min stop bytes.length), min stop bytes.length⟩

/-! ### Accesses -/

/-- The byte at a position. -/
def index (i : Nat) : Access UInt8 := fun b => b.bytes[i]?.map fun byte => (.ok byte, b)

/-- The bytes from one position to another. -/
def range (i j : Nat) : Access (List UInt8) := fun b =>
  if i ≤ j ∧ j ≤ b.bytes.length then some (.ok ((b.bytes.drop i).take (j - i)), b) else none

/-- How many bytes are left. -/
def size : Access Nat := fun b =>
  if b.pos ≤ b.stop then some (.ok (b.stop - b.pos), b) else none

def isEmpty : Access Bool := return decide ((← get).stop ≤ (← get).pos)

/-- Checks that `n` bytes are left. -/
def ensure (n : Nat) : Access Unit := do
  if (← size) < n then throw .endOfBuffer

def advance (n : Nat) : Access Unit := modify fun b => { b with pos := b.pos + n }

/-- The next byte, which stays where it is. -/
def peek : Access UInt8 := do
  ensure 1
  index (← get).pos

def byte : Access UInt8 := do
  ensure 1
  let byte ← index (← get).pos
  advance 1
  return byte

def skip (n : Nat) : Access Unit := do
  ensure n
  advance n

/-- The next `n` bytes. -/
def take (n : Nat) : Access (List UInt8) := do
  ensure n
  let b ← get
  let bytes ← range b.pos (b.pos + n)
  advance n
  return bytes

/-- A number of `width` bytes, lowest byte first. -/
def fixed (width : Nat) : Access Nat := littleEndianValue <$> take width

/-- The text that the next `n` bytes encode. -/
def utf8 (n : Nat) : Access String := do
  let bytes ← take n
  match String.fromUTF8? ⟨bytes.toArray⟩ with
  | some text => return text
  | none => throw .invalidUtf8

/-- A base-128 number of which `more` bytes may follow the first one. -/
def varintUpTo : (more : Nat) → Access Nat
  | 0 => do
    let b ← byte
    if b.toNat ≤ 1 then return b.toNat else throw .varintOverflow
  | more + 1 => do
    let b ← byte
    if b.toNat < 128 then return b.toNat
    else
      let n ← varintUpTo more
      return b.toNat - 128 + 128 * n

/-- A base-128 number. -/
def varint : Access Nat := varintUpTo 9

/-- A buffer of its own for the next `n` bytes, which are passed over. -/
def cut (n : Nat) : Access Buffer := do
  ensure n
  let b ← get
  advance n
  return slice b.bytes b.pos (b.pos + n)

/-! ### Requests -/

/-- What a buffer can be asked for. -/
inductive Request
  | byte | peek | uint32 | int32 | uint64 | int64 | float | double | varint | size | isEmpty
  | skip (n : Nat) | take (n : Nat) | utf8 (n : Nat)
  deriving DecidableEq, Repr

/-- What a buffer answers; floating-point numbers by their bits. -/
inductive Answer
  | byte (b : UInt8)
  | uint32 (n : UInt32)
  | int32 (n : Int32)
  | uint64 (n : UInt64)
  | int64 (n : Int64)
  | float (bits : UInt32)
  | double (bits : UInt64)
  | number (n : Nat)
  | flag (b : Bool)
  | bytes (bs : List UInt8)
  | text (s : String)
  | done
  deriving DecidableEq, Repr

def ask : Request → Access Answer
  | .byte => .byte <$> byte
  | .peek => .byte <$> peek
  | .uint32 => (.uint32 ·.toUInt32) <$> fixed 4
  | .int32 => (.int32 ·.toInt32) <$> fixed 4
  | .uint64 => (.uint64 ·.toUInt64) <$> fixed 8
  | .int64 => (.int64 ·.toInt64) <$> fixed 8
  | .float => (.float ·.toUInt32) <$> fixed 4
  | .double => (.double ·.toUInt64) <$> fixed 8
  | .varint => .number <$> varint
  | .size => .number <$> size
  | .isEmpty => .flag <$> isEmpty
  | .skip n => (fun _ => .done) <$> skip n
  | .take n => .bytes <$> take n
  | .utf8 n => .text <$> utf8 n

/-! ### Several buffers -/

/-- What is done with one of the buffers that are open. -/
inductive Operation
  | ask (request : Request)
  | cut (n : Nat)
  deriving DecidableEq, Repr

/-- An operation on a buffer: its outcome, the buffer after it, and what it opens. -/
def perform (op : Operation) (b : Buffer) :
    Option (Except BufferError Answer × Buffer × List Buffer) :=
  match op with
  | .ask request => (ask request b).map fun (outcome, b) => (outcome, b, [])
  | .cut n =>
    (cut n b).map fun
      | (.ok inner, b) => (.ok .done, b, [inner])
      | (.error e, b) => (.error e, b, [])

/-- What is seen of an operation: its outcome, and where position and end of the buffer are then. -/
structure Seen where
  outcome : Except BufferError Answer
  pos : Nat
  stop : Nat

/-- An operation on the buffer with number `i`. What it opens comes last. With no buffer of this
number, nothing is done. -/
def step (buffers : List Buffer) (i : Nat) (op : Operation) : Option (Option Seen × List Buffer) :=
  match buffers[i]? with
  | none => some (none, buffers)
  | some b =>
    (perform op b).map fun (outcome, b, opened) =>
      (some ⟨outcome, b.pos, b.stop⟩, buffers.set i b ++ opened)

/-- Operations one after the other, each on any of the buffers that are open by then. -/
def run (buffers : List Buffer) : List (Nat × Operation) → Option (List Seen × List Buffer)
  | [] => some ([], buffers)
  | (i, op) :: ops => do
    let (seen, buffers) ← step buffers i op
    let (more, buffers) ← run buffers ops
    return (seen.toList ++ more, buffers)

end Buffer

end Protowire
