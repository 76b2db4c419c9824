import Protowire.Plain
import Protowire.Binary.Parse

/-!
Numbers in plain form. An integer may be a number or a text of digits; a text that spells no number
at all, or one out of the 64-bit range, denotes nothing.
-/

namespace Protowire.Plain

/-- The integer that a text of digits denotes. Only a signed one may have a minus. -/
def parseInteger? (signed : Bool) (s : String) : Option Int :=
  match s.toList with
  | '+' :: cs => digits? cs
  | '-' :: cs => if signed then (digits? cs).map (- ·) else none
  | cs => digits? cs
where
  digits? (cs : List Char) : Option Int :=
    if !cs.isEmpty && cs.all (·.isDigit) then some (Binary.digitsValue cs) else none

/-- The integer that a value denotes, if it is at least `low` and at most `high`. -/
def integer? (low high : Int) (v : Plain) : Option Int :=
  let n? :=
    match v with
    | int n => some n
    | string s => parseInteger? (low < 0) s
    | _ => none
  n?.filter fun n => low ≤ n ∧ n ≤ high

def int64? : Plain → Option Int := integer? Int64.minValue.toInt Int64.maxValue.toInt

def uint64? : Plain → Option Int := integer? 0 (UInt64.size - 1)

/-- The bits of the 64-bit number that a value denotes: the nearest one. -/
def double? : Plain → Option Nat
  | int n => some (Binary.double.roundInt n)
  | float bits => some bits.toNat
  | string s => Binary.double.parse? s
  | _ => none

end Protowire.Plain
