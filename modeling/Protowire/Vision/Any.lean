import Protowire.Message.Encode
import Protowire.Vision.Schema

/-!
Messages of any type, packed: the bytes of a message and a URL that names its type.
-/

namespace Protowire.Vision.Any

def typeUrl (any : Message) : String := any.string 1

def value (any : Message) : List UInt8 := any.bytes 2

variable (S : Schema)

def pack (x : Message) : Message :=
  let url := Registry.urlBase ++ S.fullName x.type
  ((Message.empty TypeName.any.id).put S 1 (.string url)).put S 2 (.bytes (x.encode S))

/-- The name of the packed type. -/
def typeName (any : Message) : String := Registry.nameOfUrl (typeUrl any)

def holds (any : Message) (t : TypeId) : Bool := typeName any = S.fullName t

/-- The packed message; none when it is another type. -/
def unpack (any : Message) (t : TypeId) : Except DecodeError (Option Message) :=
  if holds S any t then some <$> Message.decode S t .default (value any) else .ok none

/-- The packed message, its type found in a registry. -/
def unpackFrom (r : Registry) (any : Message) : Except DecodeError Message :=
  match r.findUrl? (typeUrl any) with
  | some t => Message.decode S t .default (value any)
  | none => .error (.unknownType (typeUrl any))

end Protowire.Vision.Any
