import Protowire.Binary.Shortest

/-!
Numbers from text: a sign, then digits with a point anywhere among them and an exponent after them,
or the word for an infinity or for what is no number. A numeral becomes the nearest number of the
format.
-/

namespace Protowire.Binary

/-- The digits at the front, and the rest. -/
def spanDigits (cs : List Char) : List Char × List Char :=
  (cs.takeWhile (·.isDigit), cs.dropWhile (·.isDigit))

def digitsValue (cs : List Char) : Nat := cs.foldl (fun n c => 10 * n + (c.toNat - 48)) 0

/-- A sign at the front, and what it says: whether the number is negative. -/
def spanSign : List Char → Bool × List Char
  | '-' :: cs => (true, cs)
  | '+' :: cs => (false, cs)
  | cs => (false, cs)

/-- The exponent at the end of a numeral; nothing stands for 0. -/
def parseExponent? : List Char → Option Int
  | [] => some 0
  | c :: cs =>
    if c = 'e' ∨ c = 'E' then
      let (negative, cs) := spanSign cs
      let (digits, rest) := spanDigits cs
      if digits.isEmpty ∨ ¬rest.isEmpty then none
      else some (if negative then -(digitsValue digits : Int) else digitsValue digits)
    else none

/-- A numeral without a sign. It has at least one digit. -/
def parseDecimal? (cs : List Char) : Option Decimal :=
  let (whole, rest) := spanDigits cs
  let (fraction, rest) :=
    match rest with
    | '.' :: rest => spanDigits rest
    | rest => ([], rest)
  if whole.isEmpty ∧ fraction.isEmpty then none
  else
    (parseExponent? rest).map fun exponent =>
      ⟨digitsValue (whole ++ fraction), exponent - fraction.length⟩

namespace Format

variable (F : Format)

/-- As `ofDecimal`, without the powers of ten of an exponent that is far out of range. -/
def ofDecimalClamped (d : Decimal) : Nat :=
  let top : Int := d.exponent + digitCount d.digits
  let reach : Int := (1 <<< F.exponentBits : Nat)
  if d.digits = 0 then 0
  else if reach < top then F.infinity
  else if top < -reach then 0
  else F.ofDecimal d

def parseMagnitude? (cs : List Char) : Option Nat :=
  let word := String.ofList (cs.map Char.toLower)
  if word = "inf" ∨ word = "infinity" then some F.infinity
  else if word = "nan" then some F.quietNaN
  else (parseDecimal? cs).map F.ofDecimalClamped

/-- The bits of the number that a text spells. A NaN takes the sign as well. -/
def parse? (s : String) : Option Nat :=
  let (negative, cs) := spanSign s.toList
  (F.parseMagnitude? cs).map (F.withSign negative)

end Format

end Protowire.Binary
