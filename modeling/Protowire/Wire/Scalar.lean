import Protowire.Value
import Protowire.Wire.Skip

/-!
The written form of one scalar value, without its tag, and of several under one tag.
-/

namespace Protowire.Scalar

open Reader Wire

/-- A value that does not fit has no written form. -/
def write : Scalar → Value → List UInt8
  | int32, .int32 n => writeInt32 n
  | sint32, .int32 n => writeSInt32 n
  | sfixed32, .int32 n => writeSFixed32 n
  | int64, .int64 n => writeInt64 n
  | sint64, .int64 n => writeSInt64 n
  | sfixed64, .int64 n => writeSFixed64 n
  | uint32, .uint32 n => writeUInt32 n
  | fixed32, .uint32 n => writeFixed32 n
  | uint64, .uint64 n => writeUInt64 n
  | fixed64, .uint64 n => writeFixed64 n
  | bool, .bool b => writeBool b
  | float, .float bits => writeFixed32 bits
  | double, .double bits => writeFixed64 bits
  | string, .string s => writeString s
  | bytes, .bytes bs => delimited bs
  | enum _, .enum n => writeInt32 n
  | _, _ => []

def read : Scalar → Reader DecodeError Value
  | int32 => .int32 <$> readInt32
  | sint32 => .int32 <$> readSInt32
  | sfixed32 => .int32 <$> readSFixed32
  | int64 => .int64 <$> readInt64
  | sint64 => .int64 <$> readSInt64
  | sfixed64 => .int64 <$> readSFixed64
  | uint32 => .uint32 <$> readUInt32
  | fixed32 => .uint32 <$> readFixed32
  | uint64 => .uint64 <$> readUInt64
  | fixed64 => .uint64 <$> readFixed64
  | bool => .bool <$> readBool
  | float => .float <$> readFixed32
  | double => .double <$> readFixed64
  | string => .string <$> readString
  | bytes => .bytes <$> readBytes
  | enum _ => .enum <$> readInt32

theorem advances_read (s : Scalar) : Advances s.read := by
  have varint : ∀ {α : Type} (f : Nat → α), Advances (f <$> readVarint) :=
    advances_map advances_readVarint
  have four : ∀ {α : Type} (f : Nat → α), Advances (f <$> mapError DecodeError.buffer (fixed 4)) :=
    advances_map (advances_fixed (by decide))
  have eight : ∀ {α : Type} (f : Nat → α), Advances (f <$> mapError DecodeError.buffer (fixed 8)) :=
    advances_map (advances_fixed (by decide))
  cases s with
  | double | fixed64 | sfixed64 => exact advances_map (eight _) _
  | float | fixed32 | sfixed32 => exact advances_map (four _) _
  | string => exact advances_map advances_readString _
  | bytes => exact advances_map advances_readBytes _
  | _ => exact advances_map (varint _) _

/-- All the values in a packed region; the first that fails is the error. -/
def readAll (s : Scalar) (bs : List UInt8) : Except DecodeError (List Value) :=
  if bs.isEmpty then .ok []
  else
    match _ : s.read bs with
    | .error e _ => .error e
    | .ok v rest => (v :: ·) <$> s.readAll rest
termination_by bs.length
decreasing_by exact s.advances_read.lt ‹_›

end Protowire.Scalar
