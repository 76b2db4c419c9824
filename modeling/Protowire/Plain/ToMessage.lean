import Protowire.Plain.Number
import Protowire.Plain.OfMessage

/-!
Messages from plain form. Keys may be any spelling of a field; null leaves a field unset, and any
other value sets it, also a member of a oneof to its default. The first fault in reading order is
the error.
-/

namespace Protowire

inductive PlainError
  | notAnObject (message : String)
  | unknownKey (message key : String)
  | invalidValue (field expected : String)
  | invalidBase64 (field : String)
  | outOfRange (field : String)
  deriving DecidableEq, Repr

def PlainError.message : PlainError → String
  | .notAnObject message => s!"expected a JSON object for {message}"
  | .unknownKey message key => message ++ " has no field `" ++ key ++ "`"
  | .invalidValue field expected => "field `" ++ field ++ "` expects " ++ expected
  | .invalidBase64 field => "field `" ++ field ++ "` holds invalid base64"
  | .outOfRange field => "field `" ++ field ++ "` is out of range"

namespace Scalar

/-- The value of a scalar field called `name`. -/
def ofPlain (s : Scalar) (name : String) (v : Plain) : Except PlainError Value :=
  let invalid {α : Type} (expected : String) : Except PlainError α :=
    .error (.invalidValue name expected)
  match s with
  | bool =>
    match v with
    | .bool b => .ok (.bool b)
    | _ => invalid "a boolean"
  | int32 | sint32 | sfixed32 =>
    match v.int64? with
    | some n =>
      if Int32.minValue.toInt ≤ n ∧ n ≤ Int32.maxValue.toInt then .ok (.int32 (Int32.ofInt n))
      else .error (.outOfRange name)
    | none => invalid "an integer"
  | int64 | sint64 | sfixed64 =>
    match v.int64? with
    | some n => .ok (.int64 (Int64.ofInt n))
    | none => invalid "an integer"
  | uint32 | fixed32 =>
    match v.uint64? with
    | some n =>
      if n < UInt32.size then .ok (.uint32 n.toNat.toUInt32) else .error (.outOfRange name)
    | none => invalid "an unsigned integer"
  | uint64 | fixed64 =>
    match v.uint64? with
    | some n => .ok (.uint64 n.toNat.toUInt64)
    | none => invalid "an unsigned integer"
  | float =>
    match v.double? with
    | some bits =>
      let narrowed := Binary.double.convert Binary.single bits
      if Binary.double.isFinite bits && !Binary.single.isFinite narrowed then
        .error (.outOfRange name)
      else .ok (.float narrowed.toUInt32)
    | none => invalid "a number"
  | double =>
    match v.double? with
    | some bits => .ok (.double bits.toUInt64)
    | none => invalid "a number"
  | string =>
    match v with
    | .string s => .ok (.string s)
    | _ => invalid "a string"
  | bytes =>
    match v with
    | .string s =>
      match Text.Base64.decode s.toList with
      | some bs => .ok (.bytes bs)
      | none => .error (.invalidBase64 name)
    | _ => invalid "a base64 string"
  | enum type =>
    let number? :=
      match v with
      | .string s => type.numberOf? s
      | v => v.int64?.bind fun n =>
        if Int32.minValue.toInt ≤ n ∧ n ≤ Int32.maxValue.toInt then some (Int32.ofInt n) else none
    match number? with
    | some n => .ok (.enum n)
    | none => invalid "an enum number or name"

end Scalar

mutual

/-- Sets fields from entries, one after the other. -/
def takeEntries (S : Schema) (m : Message) :
    List (String × Plain) → Except PlainError Message
  | [] => .ok m
  | (key, v) :: rest =>
    if key = Plain.typeKey then takeEntries S m rest
    else
      match (S.type m.type).fieldNamed? key with
      | none => .error (.unknownKey (S.fullName m.type) key)
      | some f =>
        if v.isNull then takeEntries S m rest
        else if f.repeated then
          match f.valuesOfPlain S v with
          | .ok vs => takeEntries S (m.putItems S f.number vs) rest
          | .error e => .error e
        else
          match f.valueOfPlain S v with
          | .ok value => takeEntries S (m.put S f.number value) rest
          | .error e => .error e

def Field.valueOfPlain (S : Schema) (f : Field) : Plain → Except PlainError Value
  | .object entries =>
    match f.kind with
    | .scalar s => s.ofPlain f.name (.object entries)
    | .message t => .message <$> takeEntries S (Message.empty t) entries
  | v =>
    match f.kind with
    | .scalar s => s.ofPlain f.name v
    | .message t => .error (.notAnObject (S.fullName t))

def Field.valuesOfPlain (S : Schema) (f : Field) : Plain → Except PlainError (List Value)
  | .array items => f.valuesOfItems S items
  | _ => .error (.invalidValue f.name "array")

def Field.valuesOfItems (S : Schema) (f : Field) : List Plain → Except PlainError (List Value)
  | [] => .ok []
  | v :: rest =>
    match f.valueOfPlain S v with
    | .ok value => (value :: ·) <$> f.valuesOfItems S rest
    | .error e => .error e

end

def Message.ofPlain (S : Schema) (t : TypeId) : Plain → Except PlainError Message
  | .object entries => takeEntries S (Message.empty t) entries
  | _ => .error (.notAnObject (S.fullName t))

end Protowire
