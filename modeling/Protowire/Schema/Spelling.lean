import Protowire.Schema
import Protowire.Text.Uppercase

/-!
The three spellings of a field: its declared name, the name in camel case, and the key it has in
plain form, which marks repeated fields.
-/

namespace Protowire

/-- Drops underscores; a character that follows some is written in upper case. -/
def camelCase (s : List Char) : List Char := go false s
where
  go (raise : Bool) : List Char → List Char
    | [] => []
    | c :: cs =>
      if c = '_' then go true cs
      else (if raise then Text.uppercase c else [c]) ++ go false cs

namespace Field

def camelName (f : Field) : String := String.ofList (camelCase f.name.toList)

def plainKey (f : Field) : String := if f.repeated then f.camelName ++ "List" else f.camelName

def spellings (f : Field) : List String := [f.name, f.camelName, f.plainKey]

end Field

/-- The first field of which this is a spelling. -/
def MessageType.fieldNamed? (T : MessageType) (name : String) : Option Field :=
  T.fields.find? (name ∈ ·.spellings)

end Protowire
