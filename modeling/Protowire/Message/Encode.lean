import Protowire.Message
import Protowire.Wire.Scalar

/-!
The bytes of a message: its fields in ascending order of numbers. A default outside a oneof is left
out, and so is a value that does not fit its field. Numbers of a repeated field stand together under
one tag.
-/

namespace Protowire

open Wire

namespace Scalar

/-- One value behind its tag. -/
def writeTagged (s : Scalar) (number : Nat) (v : Value) : List UInt8 :=
  if s.accepts v then writeTag number s.wire ++ s.write v else []

/-- The values that fit, under one tag. -/
def writePacked (s : Scalar) (number : Nat) (vs : List Value) : List UInt8 :=
  writeDelimited number ((vs.filter s.accepts).flatMap s.write)

def writeList (s : Scalar) (number : Nat) (vs : List Value) : List UInt8 :=
  if vs.isEmpty then []
  else if s.packable then s.writePacked number vs
  else vs.flatMap (s.writeTagged number)

end Scalar

mutual

def Message.encode (S : Schema) : Message → List UInt8
  | ⟨t, fields⟩ => encodeFields S (S.type t) fields

def encodeFields (S : Schema) (T : MessageType) : List (Nat × Value) → List UInt8
  | [] => []
  | (n, v) :: rest =>
    (match T.field? n with
      | some f => encodeField S f v
      | none => []) ++
      encodeFields S T rest

def encodeField (S : Schema) (f : Field) : Value → List UInt8
  | .list items =>
    match f.kind with
    | .scalar s => s.writeList f.number items
    | .message t => encodeMessages S f.number t items
  | .message m =>
    if f.kind.accepts S (.message m) then writeDelimited f.number (m.encode S) else []
  | v =>
    match f.kind with
    | .scalar s => if f.oneof.isNone && v.isDefault then [] else s.writeTagged f.number v
    | .message _ => []

def encodeMessages (S : Schema) (number : Nat) (t : TypeId) : List Value → List UInt8
  | [] => []
  | .message m :: rest =>
    (if S.fullName m.type = S.fullName t then writeDelimited number (m.encode S) else []) ++
      encodeMessages S number t rest
  | _ :: rest => encodeMessages S number t rest

end

end Protowire
