import Protowire.Message

/-!
Typed access to the fields of a message. Reading gives the default where a field is unset or holds
another type, and passes over elements of another type; writing follows the rules of `Message.put`.
Every field has accessors that go by its name.
-/

namespace Protowire

/-- A value as fields of this type read it. Enum numbers and 32-bit integers read as each other. -/
def Scalar.view : Scalar → Value → Option Value
  | bool, v => .bool <$> v.bool?
  | int32, v | sint32, v | sfixed32, v => .int32 <$> v.int32?
  | int64, v | sint64, v | sfixed64, v => .int64 <$> v.int64?
  | uint32, v | fixed32, v => .uint32 <$> v.uint32?
  | uint64, v | fixed64, v => .uint64 <$> v.uint64?
  | float, v => .float <$> v.float?
  | double, v => .double <$> v.double?
  | string, v => .string <$> v.string?
  | bytes, v => .bytes <$> v.bytes?
  | enum _, v => .enum <$> v.int32?

def Kind.view : Kind → Value → Option Value
  | scalar s, v => s.view v
  | message _, v => .message <$> v.message?

namespace Message

/-- The value of a singular scalar field. -/
def scalar (m : Message) (n : Nat) (s : Scalar) (default : Value) : Value :=
  m.getD n s.view default

/-- The elements of a repeated field that are of its kind. -/
def elements (m : Message) (n : Nat) (kind : Kind) : List Value := (m.items n).filterMap kind.view

end Message

namespace Field

/-- What the field of a message reads as. Only a message may be absent. -/
def read (f : Field) (m : Message) : Option Value :=
  if f.repeated then some (.list (m.elements f.number f.kind))
  else
    match f.kind with
    | .scalar s => some (m.scalar f.number s s.default)
    | .message _ => .message <$> m.message? f.number

/-- Sets the field of a message; a repeated one to the elements of a list. -/
def write (S : Schema) (f : Field) (m : Message) (v : Value) : Message :=
  if f.repeated then m.putItems S f.number (v.list?.getD []) else m.put S f.number v

end Field

inductive Accessor
  | get | set | add | has | clear
  deriving DecidableEq, Repr

namespace Accessor

/-- What stands in front of the field's name in the name of its accessor. -/
def verb : Accessor → String
  | get => ""
  | set => "set_"
  | add => "add_"
  | has => "has_"
  | clear => "clear_"

def all : List Accessor := [.get, .set, .add, .has, .clear]

/-- The name of a field's accessor. -/
def nameFor (a : Accessor) (f : Field) : String := a.verb ++ f.name

end Accessor

/-- The accessor with this name, and its field. -/
def MessageType.accessor? (T : MessageType) (name : String) : Option (Accessor × Field) :=
  Accessor.all.findSome? fun a => (T.fields.find? (a.nameFor · = name)).map (a, ·)

end Protowire
