/-!
Binary floating-point numbers by their bits: a sign, an exponent and a fraction, of 32 bits in all
or of 64. Everything here is exact arithmetic on natural numbers.
-/

namespace Protowire.Binary

/-- How many bits the fraction and the exponent have. -/
structure Format where
  fractionBits : Nat
  exponentBits : Nat
  deriving DecidableEq, Repr

def single : Format := ⟨23, 8⟩

def double : Format := ⟨52, 11⟩

namespace Format

variable (F : Format)

/-- The bits of the sign alone. -/
def signBit : Nat := 1 <<< (F.fractionBits + F.exponentBits)

/-- The bits without the sign. -/
def magnitude (bits : Nat) : Nat := bits % F.signBit

def isNegative (bits : Nat) : Bool := bits / F.signBit % 2 = 1

/-- The bits of the positive infinity. -/
def infinity : Nat := (1 <<< F.exponentBits - 1) <<< F.fractionBits

/-- The bits of the positive quiet NaN that carries nothing else. -/
def quietNaN : Nat := F.infinity + 1 <<< (F.fractionBits - 1)

def isNaN (bits : Nat) : Bool := F.infinity < F.magnitude bits

def isInfinite (bits : Nat) : Bool := F.magnitude bits = F.infinity

def isFinite (bits : Nat) : Bool := F.magnitude bits < F.infinity

/-- Zero of either sign. -/
def isZero (bits : Nat) : Bool := F.magnitude bits = 0

/-- Equality as numbers: a NaN equals nothing, and the zeros equal each other. -/
def numEq (a b : Nat) : Bool := !F.isNaN a && (a = b || F.isZero a && F.isZero b)

/-- The exponent of the last place of the smallest numbers. -/
def minExponent : Int := 2 - (1 <<< (F.exponentBits - 1) : Nat) - F.fractionBits

def withSign (negative : Bool) (magnitude : Nat) : Nat :=
  if negative then F.signBit + magnitude else magnitude

end Format

/-- The number `digits * base ^ exponent`, as a fraction. -/
def scaled (base : Nat) (digits : Nat) (exponent : Int) : Nat × Nat :=
  (digits * base.pow exponent.toNat, base.pow (-exponent).toNat)

/-- The absolute value of a finite number, as a fraction. -/
def Format.toFraction (F : Format) (bits : Nat) : Nat × Nat :=
  let m := F.magnitude bits
  let fraction := m % 1 <<< F.fractionBits
  let exponent := m >>> F.fractionBits
  if exponent = 0 then scaled 2 fraction F.minExponent
  else scaled 2 (1 <<< F.fractionBits + fraction) (F.minExponent + (exponent - 1 : Nat))

end Protowire.Binary
