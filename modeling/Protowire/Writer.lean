/-!
A writer: the bytes written so far and not handed over yet.
-/

namespace Protowire

structure Writer where
  bytes : List UInt8 := []
  deriving DecidableEq, Repr

namespace Writer

def empty : Writer := {}

def write (w : Writer) (bs : List UInt8) : Writer := ⟨w.bytes ++ bs⟩

/-- Hands over what was written; the writer starts afresh. -/
def flush (w : Writer) : List UInt8 × Writer := (w.bytes, empty)

def size (w : Writer) : Nat := w.bytes.length

def isEmpty (w : Writer) : Bool := w.bytes.isEmpty

end Writer

end Protowire
