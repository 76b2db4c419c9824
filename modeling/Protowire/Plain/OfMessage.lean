import Protowire.Message
import Protowire.Plain
import Protowire.Schema.Spelling
import Protowire.Text.Base64
import Protowire.Binary.Round

/-!
The plain form of a message: an object with every declared field under its plain key. An unset
scalar shows its default; an unset message and an unset member of a oneof show null. Bytes are in
base 64, and what is no finite number is spelled in words.
-/

namespace Protowire

/-- The key under which an object names its message type, when asked to. -/
def Plain.typeKey : String := "@type"

/-- A number of 64 bits. -/
def Plain.ofDouble (bits : Nat) : Plain :=
  if Binary.double.isNaN bits then .string "NaN"
  else if Binary.double.isInfinite bits then
    .string (if Binary.double.isNegative bits then "-Infinity" else "Infinity")
  else .float bits.toUInt64

/-- What a field that is not set shows. -/
def Field.plainDefault (f : Field) : Plain :=
  if f.repeated then .array []
  else if f.oneof.isSome then .null
  else
    match f.kind with
    | .message _ => .null
    | .scalar s =>
      match s with
      | .double | .float => .float 0
      | .bool => .bool false
      | .string | .bytes => .string ""
      | _ => .int 0

/-- What a field shows, given the plain form of what is stored. A repeated field shows nothing but a
list. -/
def Field.plainValue (f : Field) : Option Plain → Plain
  | none => f.plainDefault
  | some v =>
    if f.repeated then
      match v with
      | .array items => .array items
      | _ => .array []
    else v

/-- The object for a type, given the plain forms of the stored fields. -/
def MessageType.plainObject (T : MessageType) (naming : Bool) (stored : FieldMap Plain) : Plain :=
  let named := if naming then [(Plain.typeKey, Plain.string T.fullName)] else []
  .ofEntries (named ++ T.fields.map fun f => (f.plainKey, f.plainValue (stored.get? f.number)))

mutual

def Message.toPlain (S : Schema) (naming : Bool) : Message → Plain
  | ⟨t, fields⟩ => (S.type t).plainObject naming (plainFields S naming fields)

def Value.toPlain (S : Schema) (naming : Bool) : Value → Plain
  | .bool b => .bool b
  | .int32 n | .enum n => .int n.toInt
  | .int64 n => .int n.toInt
  | .uint32 n => .int n.toNat
  | .uint64 n => .int n.toNat
  | .float bits => .ofDouble (Binary.single.convert Binary.double bits.toNat)
  | .double bits => .ofDouble bits.toNat
  | .string s => .string s
  | .bytes bs => .string (String.ofList (Text.Base64.encode bs))
  | .message m => m.toPlain S naming
  | .list items => .array (plainItems S naming items)

def plainFields (S : Schema) (naming : Bool) : List (Nat × Value) → List (Nat × Plain)
  | [] => []
  | (n, v) :: rest => (n, v.toPlain S naming) :: plainFields S naming rest

def plainItems (S : Schema) (naming : Bool) : List Value → List Plain
  | [] => []
  | v :: rest => v.toPlain S naming :: plainItems S naming rest

end

end Protowire
