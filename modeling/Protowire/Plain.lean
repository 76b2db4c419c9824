import Protowire.Binary

/-!
Plain values: null, booleans, numbers, texts, arrays, and objects whose entries keep the order in
which their keys first came. A number is an integer or a finite floating-point number, and stays
what it is.
-/

namespace Protowire

inductive Plain
  | null
  | bool (b : Bool)
  | int (n : Int)
  | float (bits : UInt64)
  | string (s : String)
  | array (items : List Plain)
  | object (entries : List (String × Plain))
  deriving Inhabited

namespace Plain

/-- Adds an entry at the end, or replaces the value of the one with the same key in its place. -/
def putEntry (entries : List (String × Plain)) (key : String) (value : Plain) :
    List (String × Plain) :=
  match entries with
  | [] => [(key, value)]
  | (k, v) :: rest =>
    if k = key then (k, value) :: rest else (k, v) :: putEntry rest key value

/-- The object that writing the entries one after the other gives. -/
def ofEntries (entries : List (String × Plain)) : Plain :=
  object (entries.foldl (fun acc (k, v) => putEntry acc k v) [])

def isNull : Plain → Bool
  | null => true
  | _ => false

end Plain

end Protowire
