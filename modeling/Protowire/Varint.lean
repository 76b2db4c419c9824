import Protowire.Reader

/-!
Base-128 numbers of at most 64 bits: seven bits a byte, lowest first, the top bit of every byte but
the last set. Ten bytes are the most, and the tenth holds the one bit that is left.
-/

namespace Protowire.Varint

/-- The shortest form of `n`. -/
def encode (n : Nat) : List UInt8 :=
  if n < 128 then [UInt8.ofNat n] else UInt8.ofNat (n % 128 + 128) :: encode (n / 128)
termination_by n
decreasing_by omega

/-- How many bytes the shortest form of `n` has. -/
def size (n : Nat) : Nat := n.log2 / 7 + 1

/-- A number of which `more` bytes may follow the first one. -/
def readUpTo : (more : Nat) → Reader BufferError Nat
  | _, [] => .error .endOfBuffer []
  | 0, b :: bs => if b.toNat ≤ 1 then .ok b.toNat bs else .error .varintOverflow bs
  | more + 1, b :: bs =>
    if b.toNat < 128 then .ok b.toNat bs
    else
      match readUpTo more bs with
      | .ok n rest => .ok (b.toNat - 128 + 128 * n) rest
      | .error e rest => .error e rest

def read : Reader BufferError Nat := readUpTo 9

theorem advances_readUpTo (more : Nat) : Reader.Advances (readUpTo more) := by
  induction more with
  | zero =>
    intro bs n rest h
    cases bs with
    | nil => simp [readUpTo] at h
    | cons b bs =>
      simp only [readUpTo] at h
      split at h <;> cases h
      simp
  | succ more ih =>
    intro bs n rest h
    cases bs with
    | nil => simp [readUpTo] at h
    | cons b bs =>
      simp only [readUpTo] at h
      split at h
      · cases h
        simp
      · split at h
        · rename_i hr
          cases h
          have := ih.lt hr
          simp only [List.length_cons]
          omega
        · cases h

theorem advances_read : Reader.Advances read := advances_readUpTo 9

end Protowire.Varint
