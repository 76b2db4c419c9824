import Protowire.Reader

/-!
A window onto a byte string: the part between a position and an end. Readers run on the window as on
the bytes it shows, and what they use up moves the position.
-/

namespace Protowire

structure Window where
  bytes : List UInt8
  pos : Nat
  stop : Nat
  pos_le_stop : pos ≤ stop
  stop_le_length : stop ≤ bytes.length

namespace Window

def ofBytes (bytes : List UInt8) : Window := ⟨bytes, 0, bytes.length, Nat.zero_le _, Nat.le_refl _⟩

/-- The bytes from `start` to `stop`, both moved into range. -/
def slice (bytes : List UInt8) (start stop : Nat) : Window :=
  ⟨bytes, min start (min stop bytes.length), min stop bytes.length, Nat.min_le_right ..,
    Nat.min_le_right ..⟩

/-- How many bytes are left. -/
def size (w : Window) : Nat := w.stop - w.pos

/-- The bytes the window shows. -/
def unread (w : Window) : List UInt8 := (w.bytes.drop w.pos).take w.size

/-- The window with all but its last `n` bytes used up. -/
def keepLast (w : Window) (n : Nat) : Window :=
  ⟨w.bytes, w.stop - n, w.stop, Nat.sub_le .., w.stop_le_length⟩

/-- Runs a reader on what the window shows. -/
def run {ε α : Type} (w : Window) (r : Reader ε α) : Except ε α × Window :=
  (r.value? w.unread, w.keepLast (r.left w.unread).length)

/-- Splits off the next `n` bytes as a window of its own. With fewer left, nothing happens. -/
def cut (w : Window) (n : Nat) : Except BufferError Window × Window :=
  if h : w.pos + n ≤ w.stop then
    (.ok ⟨w.bytes, w.pos, w.pos + n, Nat.le_add_right .., Nat.le_trans h w.stop_le_length⟩,
      ⟨w.bytes, w.pos + n, w.stop, h, w.stop_le_length⟩)
  else (.error .endOfBuffer, w)

@[simp] theorem length_unread (w : Window) : w.unread.length = w.size := by
  have := w.stop_le_length
  simp only [unread, size, List.length_take, List.length_drop]
  omega

end Window

end Protowire
