import Protowire.Binary
import Protowire.FieldMap
import Protowire.Schema

/-!
Messages and the values of their fields. A message knows its type by its position in the schema and
keeps its set fields in ascending order of numbers. Floating-point values are kept by their bits, so
that every NaN survives. Nothing here forces a stored value to fit its field: `Kind.accepts` says
which do.
-/

namespace Protowire

mutual

structure Message where
  type : TypeId
  fields : List (Nat × Value)

inductive Value
  | bool (b : Bool)
  | int32 (n : Int32)
  | int64 (n : Int64)
  | uint32 (n : UInt32)
  | uint64 (n : UInt64)
  | float (bits : UInt32)
  | double (bits : UInt64)
  | string (s : String)
  | bytes (bs : List UInt8)
  | enum (n : Int32)
  | message (m : Message)
  | list (items : List Value)

end

instance : Inhabited Message := ⟨⟨0, []⟩⟩

instance : Inhabited Value := ⟨.bool false⟩

theorem Message.eta (m : Message) : (⟨m.type, m.fields⟩ : Message) = m := by cases m; rfl

namespace Value

def typeName : Value → String
  | bool _ => "bool"
  | int32 _ => "int32"
  | int64 _ => "int64"
  | uint32 _ => "uint32"
  | uint64 _ => "uint64"
  | float _ => "float"
  | double _ => "double"
  | string _ => "string"
  | bytes _ => "bytes"
  | enum _ => "enum"
  | message _ => "message"
  | list _ => "list"

/-- Whether this is what an unset field reads as. Both zeros are; a message never is. -/
def isDefault : Value → Bool
  | bool b => !b
  | int32 n | enum n => n = 0
  | int64 n => n = 0
  | uint32 n => n = 0
  | uint64 n => n = 0
  | float bits => Binary.single.isZero bits.toNat
  | double bits => Binary.double.isZero bits.toNat
  | string s => s.isEmpty
  | bytes bs => bs.isEmpty
  | message _ => false
  | list items => items.isEmpty

def bool? : Value → Option Bool
  | bool b => some b
  | _ => none

/-- Enum numbers also read as 32-bit integers. -/
def int32? : Value → Option Int32
  | int32 n | enum n => some n
  | _ => none

def int64? : Value → Option Int64
  | int64 n => some n
  | _ => none

def uint32? : Value → Option UInt32
  | uint32 n => some n
  | _ => none

def uint64? : Value → Option UInt64
  | uint64 n => some n
  | _ => none

def float? : Value → Option UInt32
  | float bits => some bits
  | _ => none

def double? : Value → Option UInt64
  | double bits => some bits
  | _ => none

def string? : Value → Option String
  | string s => some s
  | _ => none

def bytes? : Value → Option (List UInt8)
  | bytes bs => some bs
  | _ => none

def message? : Value → Option Message
  | message m => some m
  | _ => none

def list? : Value → Option (List Value)
  | list items => some items
  | _ => none

end Value

namespace Scalar

def accepts : Scalar → Value → Bool
  | int32, .int32 _ | sint32, .int32 _ | sfixed32, .int32 _ => true
  | int64, .int64 _ | sint64, .int64 _ | sfixed64, .int64 _ => true
  | uint32, .uint32 _ | fixed32, .uint32 _ => true
  | uint64, .uint64 _ | fixed64, .uint64 _ => true
  | bool, .bool _ => true
  | float, .float _ => true
  | double, .double _ => true
  | string, .string _ => true
  | bytes, .bytes _ => true
  | enum _, .enum _ => true
  | _, _ => false

/-- What an unset field reads as. -/
def default : Scalar → Value
  | double => .double 0
  | float => .float 0
  | int64 | sint64 | sfixed64 => .int64 0
  | uint64 | fixed64 => .uint64 0
  | int32 | sint32 | sfixed32 => .int32 0
  | uint32 | fixed32 => .uint32 0
  | bool => .bool false
  | string => .string ""
  | bytes => .bytes []
  | enum _ => .enum 0

theorem accepts_default (s : Scalar) : s.accepts s.default := by cases s <;> rfl

end Scalar

namespace Kind

/-- Whether a value may stand in a field of this kind. Messages go by the name of their type. -/
def accepts (S : Schema) : Kind → Value → Bool
  | scalar s, v => s.accepts v
  | message t, .message m => S.fullName m.type = S.fullName t
  | message _, _ => false

/-- A message is absent by default. -/
def default? : Kind → Option Value
  | scalar s => some s.default
  | message _ => none

/-- In an enum field, a 32-bit integer stands for the enum number. -/
def normalize : Kind → Value → Value
  | scalar (.enum _), .int32 n => .enum n
  | _, v => v

end Kind

end Protowire
