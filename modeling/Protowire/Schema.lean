import Protowire.Wire

/-!
Schemas: the declared message types, each a list of fields. A message type may refer to any other,
itself included, so references go by the type's position in the schema and not by its name; two
types of one schema may share a name.
-/

namespace Protowire

structure EnumValue where
  name : String
  number : Int32
  deriving DecidableEq, Repr

structure EnumType where
  name : String
  values : List EnumValue
  deriving DecidableEq, Repr

namespace EnumType

/-- The name of the first value with this number. -/
def nameOf? (e : EnumType) (number : Int32) : Option String :=
  (e.values.find? (·.number = number)).map (·.name)

/-- The number of the first value with this name. -/
def numberOf? (e : EnumType) (name : String) : Option Int32 :=
  (e.values.find? (·.name = name)).map (·.number)

end EnumType

/-- A message type's position in its schema. -/
abbrev TypeId := Nat

/-- What a field holds that is no message. -/
inductive Scalar
  | double | float | int64 | uint64 | int32 | fixed64 | fixed32 | bool | string | bytes
  | uint32 | sfixed32 | sfixed64 | sint32 | sint64
  | enum (type : EnumType)
  deriving DecidableEq, Repr

namespace Scalar

/-- The wire type of one value on its own. -/
def wire : Scalar → WireType
  | int32 | int64 | uint32 | uint64 | sint32 | sint64 | bool | enum _ => .varint
  | fixed64 | sfixed64 | double => .fixed64
  | fixed32 | sfixed32 | float => .fixed32
  | string | bytes => .lengthDelimited

/-- Whether the values of a repeated field may stand together under one tag. -/
def packable : Scalar → Bool
  | string | bytes => false
  | _ => true

def name : Scalar → String
  | double => "double"
  | float => "float"
  | int64 => "int64"
  | uint64 => "uint64"
  | int32 => "int32"
  | fixed64 => "fixed64"
  | fixed32 => "fixed32"
  | bool => "bool"
  | string => "string"
  | bytes => "bytes"
  | uint32 => "uint32"
  | sfixed32 => "sfixed32"
  | sfixed64 => "sfixed64"
  | sint32 => "sint32"
  | sint64 => "sint64"
  | enum _ => "enum"

/-- All scalar types that are no enums. -/
def basic : List Scalar :=
  [double, float, int64, uint64, int32, fixed64, fixed32, bool, string, bytes, uint32, sfixed32,
    sfixed64, sint32, sint64]

/-- The scalar type with this name, unless it is an enum. -/
def ofName? (name : String) : Option Scalar := basic.find? (·.name = name)

end Scalar

inductive Kind
  | scalar (type : Scalar)
  | message (type : TypeId)
  deriving DecidableEq, Repr

namespace Kind

def wire : Kind → WireType
  | scalar s => s.wire
  | message _ => .lengthDelimited

def packable : Kind → Bool
  | scalar s => s.packable
  | message _ => false

def name : Kind → String
  | scalar s => s.name
  | message _ => "message"

def isMessage : Kind → Bool
  | scalar _ => false
  | message _ => true

abbrev bool : Kind := scalar .bool

abbrev int32 : Kind := scalar .int32

abbrev int64 : Kind := scalar .int64

abbrev float : Kind := scalar .float

abbrev string : Kind := scalar .string

abbrev bytes : Kind := scalar .bytes

abbrev enum (type : EnumType) : Kind := scalar (.enum type)

end Kind

structure Field where
  number : Nat
  name : String
  kind : Kind
  repeated : Bool := false
  /-- The position of its group among the type's oneof groups. -/
  oneof : Option Nat := none
  deriving DecidableEq, Repr

namespace Field

/-- A field of at most one value. -/
def one (number : Nat) (name : String) (kind : Kind) : Field := ⟨number, name, kind, false, none⟩

/-- A repeated field. -/
def many (number : Nat) (name : String) (kind : Kind) : Field := ⟨number, name, kind, true, none⟩

/-- A member of a oneof group. -/
def choice (number : Nat) (name : String) (kind : Kind) (group : Nat) : Field :=
  ⟨number, name, kind, false, some group⟩

/-- Whether being unset differs from holding the default. -/
def tracksPresence (f : Field) : Bool := f.oneof.isSome || f.kind.isMessage

end Field

/-- Fields of which at most one is set. -/
structure OneofGroup where
  name : String
  members : List Nat
  deriving DecidableEq, Repr

structure MessageType where
  fullName : String
  /-- In the order of their declaration. -/
  fields : List Field
  oneofs : List OneofGroup := []
  deriving DecidableEq, Repr

namespace MessageType

/-- A type without fields and without a name. -/
def empty : MessageType := ⟨"", [], []⟩

/-- The name without what qualifies it: the part after the last dot. -/
def name (T : MessageType) : String :=
  String.ofList (T.fullName.toList.reverse.takeWhile (· ≠ '.')).reverse

/-- The first field declared with this number. -/
def field? (T : MessageType) (number : Nat) : Option Field := T.fields.find? (·.number = number)

theorem number_of_field? {T : MessageType} {n : Nat} {f : Field} (h : T.field? n = some f) :
    f.number = n := by
  simpa using List.find?_some h

theorem mem_of_field? {T : MessageType} {n : Nat} {f : Field} (h : T.field? n = some f) :
    f ∈ T.fields :=
  List.mem_of_find?_eq_some h

def oneof? (T : MessageType) (group : Nat) : Option OneofGroup := T.oneofs[group]?

/-- The position of the first group with this name. -/
def oneofNamed? (T : MessageType) (name : String) : Option Nat :=
  T.oneofs.findIdx? (·.name = name)

/-- The other fields of a field's oneof group: setting one unsets them. -/
def rivals (T : MessageType) (f : Field) : List Nat :=
  match f.oneof.bind T.oneof? with
  | some group => group.members.filter (· ≠ f.number)
  | none => []

end MessageType

structure Schema where
  types : Array MessageType
  deriving DecidableEq, Repr

namespace Schema

/-- The type at a position; past the end, a type without fields. -/
def type (S : Schema) (t : TypeId) : MessageType := S.types[t]?.getD MessageType.empty

def fullName (S : Schema) (t : TypeId) : String := (S.type t).fullName

/-- The position of the first type with this name. -/
def find? (S : Schema) (fullName : String) : Option TypeId :=
  S.types.findIdx? (·.fullName = fullName)

end Schema

end Protowire
