import Protowire.Value

/-!
Equality of messages: the same full name and the same fields with equal values. Floating-point
values compare as numbers, so a message that holds a NaN is not equal to itself.
-/

namespace Protowire

mutual

def Message.equal (S : Schema) : Message → Message → Bool
  | ⟨t, fs⟩, ⟨u, gs⟩ => S.fullName t = S.fullName u && equalFields S fs gs

def Value.equal (S : Schema) : Value → Value → Bool
  | .bool a, .bool b => a = b
  | .int32 a, .int32 b => a = b
  | .int64 a, .int64 b => a = b
  | .uint32 a, .uint32 b => a = b
  | .uint64 a, .uint64 b => a = b
  | .float a, .float b => Binary.single.numEq a.toNat b.toNat
  | .double a, .double b => Binary.double.numEq a.toNat b.toNat
  | .string a, .string b => a = b
  | .bytes a, .bytes b => a = b
  | .enum a, .enum b => a = b
  | .message a, .message b => Message.equal S a b
  | .list as, .list bs => equalItems S as bs
  | _, _ => false

def equalFields (S : Schema) : List (Nat × Value) → List (Nat × Value) → Bool
  | [], [] => true
  | (n, a) :: as, (k, b) :: bs => n = k && Value.equal S a b && equalFields S as bs
  | _, _ => false

def equalItems (S : Schema) : List Value → List Value → Bool
  | [], [] => true
  | a :: as, b :: bs => Value.equal S a b && equalItems S as bs
  | _, _ => false

end

end Protowire
