import Protowire.Binary.Shortest
import Protowire.Message
import Protowire.Text.Quoted

/-!
Messages as text for people: the name of the type, then the declared fields that are set. Every
value says what it is.
-/

namespace Protowire

def bracketed (parts : List String) : String := "[" ++ String.intercalate ", " parts ++ "]"

def tagged (name text : String) : String := name ++ "(" ++ text ++ ")"

/-- A type's name and the texts of the set fields. -/
def MessageType.showFields (T : MessageType) (fields : List (Nat × String)) : String :=
  let parts := fields.filterMap fun (n, text) => (T.field? n).map fun f => f.name ++ ": " ++ text
  if parts.isEmpty then T.name
  else T.name ++ " \x7b " ++ String.intercalate ", " parts ++ " \x7d"

mutual

def Message.show (S : Schema) : Message → String
  | ⟨t, fields⟩ => (S.type t).showFields (showStored S fields)

def Value.show (S : Schema) : Value → String
  | .bool b => tagged "Bool" (toString b)
  | .int32 n => tagged "Int32" (toString n.toInt)
  | .int64 n => tagged "Int64" (toString n.toInt)
  | .uint32 n => tagged "Uint32" (toString n.toNat)
  | .uint64 n => tagged "Uint64" (toString n.toNat)
  | .float bits => tagged "Float" (Binary.single.render bits.toNat)
  | .double bits => tagged "Double" (Binary.double.render bits.toNat)
  | .string s => tagged "String" (Text.quoted s)
  | .bytes bs => tagged "Bytes" (bracketed (bs.map fun b => toString b.toNat))
  | .enum n => tagged "Enum" (toString n.toInt)
  | .message m => tagged "Message" (m.show S)
  | .list items => tagged "List" (bracketed (showItems S items))

def showStored (S : Schema) : List (Nat × Value) → List (Nat × String)
  | [] => []
  | (n, v) :: rest => (n, v.show S) :: showStored S rest

def showItems (S : Schema) : List Value → List String
  | [] => []
  | v :: rest => v.show S :: showItems S rest

end

end Protowire
